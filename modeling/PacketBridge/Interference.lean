import PacketBridge.ReceiverCalls

/-! Two transfers into one directory: which files a run may touch, and which names make the files
of two transfers meet. -/
namespace PacketBridge
open Foundations

def transferPaths (outputDir filename : Bytes) : List Bytes :=
  let outputPath := outputPathFor outputDir { filename }
  [outputPath, checkpointPathForOutput outputPath,
    temporaryPath (checkpointPathForOutput outputPath)]

/-- The name of one transfer continued as the sidecar file of another. -/
def Clash (a b : Bytes) : Prop :=
  a = checkpointPathForOutput b ∨ a = temporaryPath (checkpointPathForOutput b)

instance (a b : Bytes) : Decidable (Clash a b) := inferInstanceAs (Decidable (_ ∨ _))

abbrev Within (ps : List Bytes) {α : Type} (p : FileProg α) : Prop :=
  Prog.Calls (fun o => ∀ q ∈ FileOp.touches o, q ∈ ps) p

theorem within_receiverSession (dir : Bytes) (m : FileManifest) (s : TcpSocket) :
    Within (transferPaths dir m.filename) (receiverSession dir m s) := by
  have ho : outputPathFor dir m ∈ transferPaths dir m.filename := List.mem_cons_self
  have hc : checkpointPathForOutput (outputPathFor dir m) ∈ transferPaths dir m.filename :=
    List.mem_cons_of_mem _ List.mem_cons_self
  have ht : temporaryPath (checkpointPathForOutput (outputPathFor dir m)) ∈
      transferPaths dir m.filename :=
    List.mem_cons_of_mem _ (List.mem_cons_of_mem _ List.mem_cons_self)
  have hone {p : Bytes} (hp : p ∈ transferPaths dir m.filename) :
      ∀ q ∈ [p], q ∈ transferPaths dir m.filename := by
    intro q hq
    rw [List.mem_singleton] at hq
    rwa [hq]
  refine calls_receiverSession (fun _ _ hq => absurd hq List.not_mem_nil) dir m s
    ⟨hone ho, fun _ => hone ho, fun _ => hone ho, hone ho⟩
    ⟨hone ht, fun _ => hone ht, hone ht, hone hc, ?_⟩ (hone ho)
  intro q hq
  simp only [FileOp.touches, List.mem_cons, List.not_mem_nil, or_false] at hq
  rcases hq with rfl | rfl
  · exact ht
  · exact hc

/-- What every program does to a path outside its own: nothing, wherever it is stopped. -/
theorem Within.same {ps : List Bytes} {α : Type} {p : FileProg α} (h : Within ps p) (env : Env)
    (w : World) (q : Bytes) (hq : q ∉ ps) :
    Prog.Safe env.exec cutAfter (World.Same q w) p w fun _ => World.Same q w := by
  refine Prog.Calls.safe env.exec h World.Same.refl (fun o t ho ht => ?_) fun c o t ho ht => ?_
  · exact ht.trans (exec_same env o t q fun hm => hq (ho q hm))
  · exact ht.trans (cutAfter_same c o t q fun hm => hq (ho q hm))

theorem outputPathFor_eq_iff (dir f g : Bytes) :
    outputPathFor dir { filename := f } = outputPathFor dir { filename := g } ↔
      sanitizeFilename f = sanitizeFilename g := by
  refine ⟨fun h => ?_, fun h => by rw [outputPathFor, outputPathFor, h]⟩
  exact List.append_cancel_left (joinOutputPath_injective dir _ _ h)

/-- A suffix of the name is one of the path. -/
theorem outputPathFor_append_iff (dir f g suffix : Bytes) :
    outputPathFor dir { filename := f } = outputPathFor dir { filename := g } ++ suffix ↔
      sanitizeFilename f = sanitizeFilename g ++ suffix := by
  have hjoin (a : Bytes) : joinOutputPath dir a ++ suffix = joinOutputPath dir (a ++ suffix) := by
    unfold joinOutputPath
    split_ifs
    · rfl
    · exact List.append_assoc _ _ _
    · exact List.append_assoc _ _ _
  rw [outputPathFor, outputPathFor, hjoin, List.append_assoc]
  refine ⟨fun h => ?_, fun h => by rw [h]⟩
  exact List.append_cancel_left (joinOutputPath_injective dir _ _ h)

theorem outputPathFor_clash_iff (dir f g : Bytes) :
    Clash (outputPathFor dir { filename := f }) (outputPathFor dir { filename := g }) ↔
      Clash (sanitizeFilename f) (sanitizeFilename g) := by
  simp only [Clash, temporaryPath, checkpointPathForOutput, List.append_assoc,
    outputPathFor_append_iff]

theorem checkpointPath_ne_temporaryPath (a b : Bytes) :
    checkpointPathForOutput a ≠ temporaryPath (checkpointPathForOutput b) := by
  intro h
  have hl := congrArg List.getLast? h
  rw [checkpointPathForOutput, temporaryPath, List.getLast?_append, List.getLast?_append,
    show (ascii ".pbcheckpoint").getLast? = some 116 by decide,
    show (ascii ".tmp").getLast? = some 112 by decide, Option.some_or, Option.some_or] at hl
  exact absurd hl (by decide)

/-- The paths of two transfers meet exactly when one output is the other's, or its sidecar. -/
theorem transferPaths_disjoint_iff (dir f g : Bytes)
    (hne : sanitizeFilename f ≠ sanitizeFilename g) :
    (∀ p ∈ transferPaths dir f, p ∉ transferPaths dir g) ↔
      ¬ Clash (sanitizeFilename f) (sanitizeFilename g) ∧
        ¬ Clash (sanitizeFilename g) (sanitizeFilename f) := by
  rw [← outputPathFor_clash_iff dir f g, ← outputPathFor_clash_iff dir g f]
  have hout := (outputPathFor_eq_iff dir f g).not.mpr hne
  simp only [transferPaths]
  generalize outputPathFor dir { filename := f } = a at hout ⊢
  generalize outputPathFor dir { filename := g } = b at hout ⊢
  have hck : checkpointPathForOutput a ≠ checkpointPathForOutput b :=
    fun h => hout (List.append_cancel_right h)
  have htmp : temporaryPath (checkpointPathForOutput a) ≠
      temporaryPath (checkpointPathForOutput b) := fun h => hck (List.append_cancel_right h)
  have hab := checkpointPath_ne_temporaryPath a b
  have hba := checkpointPath_ne_temporaryPath b a
  simp only [Clash, List.mem_cons, List.not_mem_nil, or_false, forall_eq_or_imp, forall_eq]
  tauto

/-- A run that receives a manifest naming `g`, over any connection, whatever the system does: the
output and the checkpoint of `f` are as before, at its end and wherever it is killed. -/
def LeavesAlone (dir f g : Bytes) : Prop :=
  ∀ (env : Env) (files : Files) (s : TcpSocket) (m : FileManifest),
    (receiveFileManifest s).1 = some m → m.filename = g →
    ∀ q ∈ (transferPaths dir f).take 2, ∀ c n,
      (Prog.run env.exec (receiver dir s) (boot files)).2.files q = files q ∧
      (Prog.crash env.exec (cutAfter c) n (receiver dir s) (boot files)).files q = files q

theorem leavesAlone_of_disjoint (dir f g : Bytes)
    (h : ∀ p ∈ transferPaths dir f, p ∉ transferPaths dir g) : LeavesAlone dir f g := by
  intro env files s m hm hg q hq c n
  subst hg
  have hwithin : Within (transferPaths dir m.filename) (receiver dir s) := by
    rw [receiver]
    generalize receiveFileManifest s = received at hm ⊢
    obtain ⟨_, s1⟩ := received
    obtain rfl := hm
    exact within_receiverSession dir m s1
  have hs := hwithin.same env (boot files) q (h q (List.mem_of_mem_take hq))
  exact ⟨hs.returns.files, (hs.always c n).files⟩

/-- Transfers of differently named files keep apart exactly when neither name is the other's with
the suffix of a checkpoint or of its temporary file. -/
theorem transfers_apart_iff (dir f g : Bytes) (hne : sanitizeFilename f ≠ sanitizeFilename g) :
    ((transferPaths dir f ++ transferPaths dir g).Nodup ∧ LeavesAlone dir f g) ↔
      ¬ Clash (sanitizeFilename f) (sanitizeFilename g) ∧
        ¬ Clash (sanitizeFilename g) (sanitizeFilename f) := by
  have hown (name : Bytes) : (transferPaths dir name).Nodup := by
    simp only [transferPaths, List.nodup_cons, List.mem_cons, List.not_mem_nil, or_false, not_or,
      not_false_eq_true, List.nodup_nil, and_true]
    exact ⟨⟨Ne.symm (checkpointPath_ne _), Ne.symm (temporaryPath_checkpointPath_ne _)⟩,
      Ne.symm (temporaryPath_ne _)⟩
  rw [← transferPaths_disjoint_iff dir f g hne, List.nodup_append]
  constructor
  · rintro ⟨⟨-, -, hd⟩, -⟩ p hp hp'
    exact hd p hp p hp' rfl
  · intro hd
    refine ⟨⟨hown f, hown g, fun a ha b hb hab => hd a ha (hab ▸ hb)⟩,
      leavesAlone_of_disjoint dir f g hd⟩

theorem transfers_apart_notes :
    (transferPaths (ascii "in") (ascii "a.txt") ++
      transferPaths (ascii "in") (ascii "b.txt")).Nodup :=
  ((transfers_apart_iff (ascii "in") (ascii "a.txt") (ascii "b.txt") (by decide)).mpr
    ⟨by decide, by decide⟩).1

/-- A file named like the checkpoint of another is received into that checkpoint. -/
theorem sidecar_name_clashes :
    sanitizeFilename (ascii "a.pbcheckpoint") ≠ sanitizeFilename (ascii "a") ∧
    outputPathFor (ascii "in") { filename := ascii "a.pbcheckpoint" } =
      checkpointPathForOutput (outputPathFor (ascii "in") { filename := ascii "a" }) := by
  decide

end PacketBridge
