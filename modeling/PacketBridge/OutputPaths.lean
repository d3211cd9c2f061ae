import PacketBridge.Interference
import PacketBridge.Sender

namespace PacketBridge
open Foundations

/-- What stands before the file name in a path: the directory with one separator behind it, or
nothing for the current directory. -/
def directoryPart (directory : Bytes) : Bytes :=
  if directory = [] ∨ directory = ascii "." then []
  else if directory.getLast? = some 47 ∨ directory.getLast? = some 92 then directory
  else directory ++ ascii "/"

/-- A single path component with the receiver's mark in front. -/
structure ReceivedComponent (component : Bytes) : Prop where
  marked : ascii "received_" <+: component
  noSlash : 47 ∉ component
  noBackslash : 92 ∉ component

theorem joinOutputPath_eq (directory filename : Bytes) :
    joinOutputPath directory filename = directoryPart directory ++ filename := by
  unfold joinOutputPath directoryPart
  split_ifs
  · rfl
  · rfl
  · rfl

theorem receivedComponent_sanitized (name : Bytes) :
    ReceivedComponent (ascii "received_" ++ sanitizeFilename name) := by
  have hnot (b : UInt8) (hmark : b ∉ ascii "received_") (hb : isPortable b = false) :
      b ∉ ascii "received_" ++ sanitizeFilename name := by
    rw [List.mem_append, not_or]
    exact ⟨hmark, not_mem_sanitizeFilename name b hb⟩
  exact ⟨List.prefix_append _ _, hnot 47 (by decide) (by decide), hnot 92 (by decide) (by decide)⟩

/-- A suffix without separators leaves it a component. -/
theorem ReceivedComponent.append {component : Bytes} (h : ReceivedComponent component)
    (suffix : Bytes) (hslash : 47 ∉ suffix) (hback : 92 ∉ suffix) :
    ReceivedComponent (component ++ suffix) := by
  refine ⟨h.marked.trans (List.prefix_append _ _), ?_, ?_⟩
  · rw [List.mem_append, not_or]
    exact ⟨h.noSlash, hslash⟩
  · rw [List.mem_append, not_or]
    exact ⟨h.noBackslash, hback⟩

/-- The three files of a transfer stand directly in the output directory. -/
theorem transferPaths_below (dir name path : Bytes) (h : path ∈ transferPaths dir name) :
    ∃ component, path = directoryPart dir ++ component ∧ ReceivedComponent component := by
  have hclean := receivedComponent_sanitized name
  have hout : outputPathFor dir { filename := name } =
      directoryPart dir ++ (ascii "received_" ++ sanitizeFilename name) := joinOutputPath_eq _ _
  simp only [transferPaths, hout, checkpointPathForOutput, temporaryPath, List.append_assoc] at h
  have hcheckpoint := hclean.append (ascii ".pbcheckpoint") (by decide) (by decide)
  have htemporary := hcheckpoint.append (ascii ".tmp") (by decide) (by decide)
  simp only [List.append_assoc] at hcheckpoint htemporary
  simp only [List.mem_cons, List.not_mem_nil, or_false] at h
  rcases h with rfl | rfl | rfl
  · exact ⟨_, rfl, hclean⟩
  · exact ⟨_, rfl, hcheckpoint⟩
  · exact ⟨_, rfl, htemporary⟩

/-- Whatever a peer sends, and wherever the receiver is stopped, a file elsewhere is as before. -/
theorem receiver_confined (env : Env) (dir : Bytes) (s : TcpSocket) (files : Files) (q : Bytes)
    (hq : ∀ component, ReceivedComponent component → q ≠ directoryPart dir ++ component) :
    Prog.Safe env.exec cutAfter (World.Same q (boot files)) (receiver dir s) (boot files)
      fun _ => World.Same q (boot files) := by
  rw [receiver]
  generalize receiveFileManifest s = received
  obtain ⟨manifest, client⟩ := received
  cases manifest with
  | none => exact Prog.Safe.pure World.Same.refl World.Same.refl
  | some m =>
    apply (within_receiverSession dir m client).same env (boot files) q
    intro hmem
    obtain ⟨component, rfl, hcomponent⟩ := transferPaths_below dir m.filename q hmem
    exact hq component hcomponent rfl

theorem sanitizeFilename_bytes (name : Bytes) (b : UInt8) (hb : b ∈ sanitizeFilename name) :
    (48 ≤ b ∧ b ≤ 57) ∨ (65 ≤ b ∧ b ≤ 90) ∨ (97 ≤ b ∧ b ≤ 122) ∨ b = 46 ∨ b = 45 ∨ b = 95 := by
  have hport := isPortable_of_mem_sanitizeFilename name b hb
  simp only [isPortable, isAlnum, isDigit, Bool.or_eq_true, Bool.and_eq_true, decide_eq_true_eq,
    beq_iff_eq, or_assoc] at hport
  exact hport

/-- A received name is a plain file name that a second cleaning leaves alone, and the paths made
from it lead nowhere but into the output directory. -/
theorem receivedNames_confined (name dir : Bytes) :
    sanitizeFilename name ≠ [] ∧
    (∀ b ∈ sanitizeFilename name, (48 ≤ b ∧ b ≤ 57) ∨ (65 ≤ b ∧ b ≤ 90) ∨ (97 ≤ b ∧ b ≤ 122) ∨
      b = 46 ∨ b = 45 ∨ b = 95) ∧
    (sanitizeFilename name).head? ≠ some 46 ∧
    sanitizeFilename (sanitizeFilename name) = sanitizeFilename name ∧
    (∀ content, outputPathFor dir (senderManifest name content) =
      joinOutputPath dir (ascii "received_" ++ (senderManifest name content).filename)) ∧
    ∀ m : FileManifest, m.filename = name →
      ∀ path ∈ [outputPathFor dir m, checkpointPathForOutput (outputPathFor dir m),
        temporaryPath (checkpointPathForOutput (outputPathFor dir m))],
      ∃ component, path = directoryPart dir ++ component ∧ ReceivedComponent component := by
  refine ⟨sanitizeFilename_ne_nil name, sanitizeFilename_bytes name, head?_sanitizeFilename name,
    sanitizeFilename_idem name, ?_, ?_⟩
  · intro content
    rw [outputPathFor, senderManifest, manifestFor, sanitizeFilename_idem]
  · rintro m rfl path hpath
    exact transferPaths_below dir m.filename path hpath

end PacketBridge
