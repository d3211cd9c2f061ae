import PacketBridge.ByteCount
import PacketBridge.Foundations.Duplex
import PacketBridge.KilledRuns

/-! The sender and the receiver at the two ends of one connection, in any order of their steps. What
an end has sent when it waits is what it sends on a stream that stops there: an end that misses bytes
sends nothing more. -/
namespace PacketBridge
open Foundations

attribute [local irreducible] sha256File

/-- A connection that takes all that is sent, as a process finds it. -/
structure TcpSocket.Fresh (s : TcpSocket) : Prop where
  isOpen : s.isOpen = true
  sent : s.sent = []
  room : s.room = none

def senderOn (filePath content : Bytes) (a : TcpSocket) (bs : Bytes) : SenderExit × TcpSocket :=
  sender filePath content { a with incoming := bs }

def receiverOn (env : Env) (dir : Bytes) (files : Files) (b : TcpSocket) (bs : Bytes) :
    (ReceiverExit × TcpSocket) × World :=
  Prog.run env.exec (receiver dir { b with incoming := bs }) (boot files)

/-- The receiver (`true`) and the sender (`false`) as parties: a process still reads when the bytes
that follow can change how it ends. -/
def ends (env : Env) (dir : Bytes) (files : Files) (filePath content : Bytes) (a b : TcpSocket) :
    Bool → Party UInt8
  | true => {
      sends := fun bs => (receiverOn env dir files b bs).1.2.sent
      reads := fun bs => ∃ rest, (receiverOn env dir files b (bs ++ rest)).1.1 ≠
        (receiverOn env dir files b bs).1.1 }
  | false => {
      sends := fun bs => (senderOn filePath content a bs).2.sent
      reads := fun bs => ∃ rest, (senderOn filePath content a (bs ++ rest)).1 ≠
        (senderOn filePath content a bs).1 }

/-- What the two ends say: the receiver its request, the sender the manifest and the transfer. -/
def saidBy (dir : Bytes) (files : Files) (filePath content : Bytes) : Bool → Bytes
  | true => serializeContinueRequest (sessionRequest files (senderManifest filePath content)
      (outputPathFor dir (senderManifest filePath content)))
  | false => serializeFileManifest (senderManifest filePath content) ++
      transferStream (senderManifest filePath content) content
        (requestedChunks files (senderManifest filePath content)
          (outputPathFor dir (senderManifest filePath content)))

/-- A reader that takes encodings off a stream settles. -/
theorem settles_of_takesEncoding {α : Type} {dom : α → Prop} {encode : α → Bytes}
    {decode : Bytes → Option α} {parse : Bytes → Option α × ℕ}
    (h : TakesEncoding dom encode decode parse) : TcpSocket.Settles parse := by
  intro bs rest x hx
  obtain ⟨front, ⟨tail, rfl⟩, hfront⟩ := (h.parse_eq_some_iff bs x).mp hx
  rw [List.append_assoc, h.parse_append hfront, h.parse_append hfront]
  refine ⟨rfl, ?_⟩
  rw [List.length_append]
  exact Nat.le_add_right _ _

theorem acceptChunks_append (m : FileManifest) (idxs : List UInt64) (bs rest : Bytes)
    (h : (acceptChunks m idxs bs).failed = none) :
    acceptChunks m idxs (bs ++ rest) =
      ⟨(acceptChunks m idxs bs).chunks, none, (acceptChunks m idxs bs).rest ++ rest⟩ := by
  induction idxs generalizing bs with
  | nil => simp only [acceptChunks]
  | cons i is ih =>
    have hsettles := parseChunkHeader_settles bs rest
    generalize hparse : parseChunkHeader bs = parsed at hsettles
    obtain ⟨got, n⟩ := parsed
    cases got with
    | none =>
      simp only [acceptChunks, hparse] at h
      cases h
    | some header =>
      obtain ⟨hsame, hn⟩ := hsettles header rfl
      simp only [acceptChunks, hparse, hsame] at h ⊢
      split_ifs at h ⊢ with hbad hlong
      · rw [List.length_append] at hlong
        omega
      · have hshort : n+header.payloadSize.toNat ≤ bs.length := by omega
        have hrest := ih (bs.drop (n+header.payloadSize.toNat)) h
        rw [List.drop_append_of_le_length hshort, hrest, slice, slice,
          List.drop_append_of_le_length (by omega),
          List.take_append_of_le_length (by rw [List.length_drop]; omega)]

def ReceiverExit.Compared (exit : ReceiverExit) : Prop := exit.code = 0 ∨ exit = .integrityFailed

theorem acceptChunks_failed_notCompared (m : FileManifest) (idxs : List UInt64) (bs : Bytes)
    (exit : ReceiverExit) (h : (acceptChunks m idxs bs).failed = some exit) : ¬ exit.Compared :=
  (show ∀ e ∈ [ReceiverExit.headerNotReceived, .headerInvalid, .payloadNotReceived, .writeFailed],
    ¬ (e.code = 0 ∨ e = .integrityFailed) by decide) exit (acceptChunks_failed_mem m idxs bs exit h)

section Sender

variable {filePath content : Bytes} {a : TcpSocket} {files : Files} {dir : Bytes}

/-- Before the request is there the sender has sent its manifest and waits. -/
theorem senderOn_waiting (ha : a.Fresh)
    (hn : (senderManifest filePath content).filename.length ≤ kMaxFilenameLength)
    (hlimit : (senderManifest filePath content).chunkCount.toNat ≤ 1000000) {bs : Bytes}
    (hp : bs <+: saidBy dir files filePath content true)
    (hne : bs ≠ saidBy dir files filePath content true) :
    (senderOn filePath content a bs).1 = .requestNotReceived ∧
      (senderOn filePath content a bs).2.sent =
        serializeFileManifest (senderManifest filePath content) := by
  obtain ⟨s, k, -, -, hsent, heq⟩ := sender_eq_answer filePath hn { a with incoming := bs }
    ha.isOpen ha.room
  have hnone : (parseContinueRequest bs).1 = none := by
    by_contra hgot
    obtain ⟨request, hgot⟩ := Option.ne_none_iff_exists'.mp hgot
    have hwhole := parseContinueRequest_append (sessionRequest files
      (senderManifest filePath content)
      (outputPathFor dir (senderManifest filePath content))) []
      ((requestedChunks_le_limit hlimit).trans_lt (by decide))
    have hle : (sessionRequest files (senderManifest filePath content)
        (outputPathFor dir (senderManifest filePath content))).missingChunkIndexes.length ≤
        kMaxChunkIndexes.toNat := requestedChunks_le_limit hlimit
    rw [if_pos hle] at hwhole
    have hp' := hp
    rw [← List.append_nil (saidBy dir files filePath content true)] at hp'
    obtain ⟨-, -, hfront⟩ :=
      (settles_of_takesEncoding continueRequest_codec).whole hp' hgot hwhole
    exact hne (hp.eq_of_length_le hfront.length_le)
  rw [senderOn, heq]
  simp only [hnone, Option.elim_none, TcpSocket.skip_sent, hsent, ha.sent, List.nil_append, and_self]

/-- With the request it sends the transfer that is asked for, and ends. -/
theorem senderOn_asked (dir : Bytes) (files : Files) (ha : a.Fresh) (hc : Sendable content)
    (hn : (senderManifest filePath content).filename.length ≤ kMaxFilenameLength)
    (hlimit : (senderManifest filePath content).chunkCount.toNat ≤ 1000000) :
    (senderOn filePath content a (saidBy dir files filePath content true)).1 = .complete ∧
      (senderOn filePath content a (saidBy dir files filePath content true)).2.sent =
        saidBy dir files filePath content false := by
  obtain ⟨s, k, hopen, hroom, hsent, heq⟩ := sender_eq_answer filePath hn
    { a with incoming := saidBy dir files filePath content true } ha.isOpen ha.room
  have hplan := (senderManifest_encodable filePath content hn).planned
  have hsize : (senderManifest filePath content).fileSize.toNat = content.length :=
    hc.fileSize_toNat
  rw [senderOn, heq, saidBy, saidBy]
  simp only [ha.sent, List.nil_append] at hsent
  generalize senderManifest filePath content = m at hplan hsize hlimit hsent ⊢
  generalize outputPathFor dir m = out at hsent ⊢
  have hparse := parseContinueRequest_append (sessionRequest files m out) []
    ((requestedChunks_le_limit hlimit).trans_lt (by decide))
  have hle : (sessionRequest files m out).missingChunkIndexes.length ≤
      kMaxChunkIndexes.toNat := requestedChunks_le_limit hlimit
  rw [List.append_nil, if_pos hle] at hparse
  have hvalid : validateContinueRequest m (sessionRequest files m out) = true := by
    rw [sessionRequest_eq]
    exact requestFor_validates (Or.inr (startingCheckpoint_matches _ _ _))
  obtain ⟨ok, hok, htransfer⟩ := senderTransfer_sends hplan hc hsize (sessionRequest files m out)
    (range_of_validateContinueRequest hvalid)
    (s.skip (serializeContinueRequest (sessionRequest files m out)).length k) hopen
  obtain ⟨rfl, -⟩ := htransfer.room hroom
  obtain ⟨part, hpart, -, hwhole⟩ := htransfer.sent
  obtain rfl := hwhole rfl
  simp only [hparse, Option.elim_some, hvalid, ↓reduceIte]
  refine ⟨hok.mp rfl, ?_⟩
  rw [hpart, TcpSocket.skip_sent, hsent]
  rfl

end Sender

section Receiver

variable {env : Env} {filePath content : Bytes} {b : TcpSocket} {files : Files} {dir : Bytes}

/-- Before the manifest is there the receiver has sent nothing and waits. -/
theorem receiverOn_waiting (hb : b.Fresh)
    (hn : (senderManifest filePath content).filename.length ≤ kMaxFilenameLength) {bs : Bytes}
    (hp : bs <+: saidBy dir files filePath content false)
    (hshort : ¬ serializeFileManifest (senderManifest filePath content) <+: bs) :
    (receiverOn env dir files b bs).1.1 = .manifestNotReceived ∧
      (receiverOn env dir files b bs).1.2.sent = [] := by
  have henc := senderManifest_encodable filePath content hn
  obtain ⟨k, hk⟩ := receiveFileManifest_reads { b with incoming := bs } hb.isOpen
  have hnone : (parseFileManifest bs).1 = none := by
    by_contra hgot
    obtain ⟨m, hgot⟩ := Option.ne_none_iff_exists'.mp hgot
    exact hshort (parseFileManifest_settles.whole hp hgot
      (parseFileManifest_append _ henc _)).2.2
  have hreceived : (receiveFileManifest { b with incoming := bs }).1 = none := by rw [hk, hnone]
  rw [receiverOn, run_receiver_rejected env dir files _ hreceived, hk]
  exact ⟨rfl, hb.sent⟩

/-- Behind the manifest it sends its request, and runs a session on what follows. -/
theorem receiverOn_asking (dir : Bytes) (files : Files) (hr : env.Reliable) (hb : b.Fresh)
    (hn : (senderManifest filePath content).filename.length ≤ kMaxFilenameLength) (rest : Bytes) :
    let run := receiverOn env dir files b
      (serializeFileManifest (senderManifest filePath content) ++ rest)
    SessionEnd (fun cp text => text = checkpointText cp) files (senderManifest filePath content)
        (outputPathFor dir (senderManifest filePath content)) rest run.1.1 run.2 ∧
      run.1.2.sent = saidBy dir files filePath content true := by
  have henc := senderManifest_encodable filePath content hn
  obtain ⟨hend, hsent⟩ := run_receiver_manifest dir henc (hr.saveLaw _) files
    { b with incoming := serializeFileManifest (senderManifest filePath content) ++ rest } hb.isOpen
    hb.room rest rfl
  rw [withoutDigest_senderManifest] at hend hsent
  refine ⟨hend, hsent.trans ?_⟩
  change b.sent ++ _ = _
  rw [hb.sent, List.nil_append]
  rfl

/-- A stream that stops short of the whole transfer ends no session with a comparison. -/
theorem receiverOn_cut (hr : env.Reliable) (hb : b.Fresh) (hc : Sendable content)
    (hn : (senderManifest filePath content).filename.length ≤ kMaxFilenameLength) {bs : Bytes}
    (hp : bs <+: saidBy dir files filePath content false)
    (hne : bs ≠ saidBy dir files filePath content false) :
    ¬ (receiverOn env dir files b bs).1.1.Compared := by
  by_cases hfront : serializeFileManifest (senderManifest filePath content) <+: bs
  · obtain ⟨rest, rfl⟩ := hfront
    obtain ⟨hend, -⟩ := receiverOn_asking dir files hr hb hn rest
    have hplan := (senderManifest_encodable filePath content hn).planned
    have hsize : (senderManifest filePath content).fileSize.toNat = content.length :=
      hc.fileSize_toNat
    have hexit := hend.exit_eq
    rw [saidBy, List.prefix_append_right_inj] at hp
    rw [saidBy, Ne, List.append_cancel_left_eq] at hne
    generalize senderManifest filePath content = m at hplan hsize hp hne hexit
    generalize outputPathFor dir m = out at hp hne hexit
    rw [hexit]
    cases hfailed : (acceptChunks m (requestedChunks files m out) rest).failed with
    | some exit => exact acceptChunks_failed_notCompared m _ rest exit hfailed
    | none =>
      -- all the chunks are there, so what is left of the stream is a part of the hash packet
      obtain ⟨tail, htail⟩ := hp
      have hmore := acceptChunks_append m (requestedChunks files m out) rest tail hfailed
      have hwhole := acceptChunks_chunkStream hplan hc hsize (requestedChunks files m out)
        (requestedChunks_lt files m out) (serializeHashPacket (contentHash m content))
      rw [← transferStream, ← htail, hmore] at hwhole
      have hrest := congrArg Accepted.rest hwhole
      simp only at hrest
      rw [Option.getD_none, verdict]
      cases hgot : (parseHashPacket (acceptChunks m (requestedChunks files m out) rest).rest).1 with
      | none => simp [ReceiverExit.Compared, ReceiverExit.code]
      | some packet =>
        have happend := parseHashPacket_append (contentHash m content)
          (isSha256Hex_sha256File content) []
        rw [← length_hashFrame m content] at happend
        have hfront : (acceptChunks m (requestedChunks files m out) rest).rest <+:
            serializeHashPacket (contentHash m content) ++ [] :=
          ⟨tail, by rw [List.append_nil, hrest]⟩
        obtain ⟨-, -, hall⟩ := parseHashPacket_settles.whole hfront hgot happend
        have hlen := hall.length_le
        rw [← hrest, List.length_append] at hlen
        have hnil : tail = [] := List.eq_nil_of_length_eq_zero (by omega)
        rw [hnil, List.append_nil] at htail
        exact absurd htail hne
  · rw [(receiverOn_waiting hb hn hp hfront).1]
    simp [ReceiverExit.Compared, ReceiverExit.code]

/-- On the whole transfer the session ends with the comparison. -/
theorem receiverOn_whole (hr : env.Reliable) (hb : b.Fresh) (hc : Sendable content)
    (hn : (senderManifest filePath content).filename.length ≤ kMaxFilenameLength) :
    let run := receiverOn env dir files b (saidBy dir files filePath content false)
    run.1.1.Compared ∧
      ∃ c, run.2.files (outputPathFor dir (senderManifest filePath content)) = some c ∧
        (run.1.1.code = 0 ↔ sha256File c = sha256File content) := by
  intro run
  obtain ⟨hend, -⟩ := receiverOn_asking dir files hr hb hn
    (transferStream (senderManifest filePath content) content (requestedChunks files
      (senderManifest filePath content) (outputPathFor dir (senderManifest filePath content))))
  have hplan := (senderManifest_encodable filePath content hn).planned
  have hsize : (senderManifest filePath content).fileSize.toNat = content.length :=
    hc.fileSize_toNat
  change SessionEnd _ _ _ _ _ run.1.1 run.2 at hend
  have hexit := hend.exit_eq
  have hout := hend.output
  generalize senderManifest filePath content = m at hplan hsize hexit hout ⊢
  generalize outputPathFor dir m = out at hexit hout ⊢
  have hwhole := acceptChunks_chunkStream hplan hc hsize (requestedChunks files m out)
    (requestedChunks_lt files m out) (serializeHashPacket (contentHash m content))
  rw [← transferStream] at hwhole
  rw [hwhole, Option.getD_none, verdict_of_contentHash] at hexit
  rw [hwhole] at hout
  simp only at hexit hout
  generalize storeChunks m (startingOutput files m out) _ = c at hexit hout
  rw [hexit]
  by_cases hhash : sha256File c = sha256File content
  · rw [if_pos hhash]
    exact ⟨Or.inl rfl, c, hout, iff_of_true rfl hhash⟩
  · rw [if_neg hhash]
    exact ⟨Or.inr rfl, c, hout, iff_of_false one_ne_zero hhash⟩

end Receiver

section Conversation

variable {env : Env} {filePath content : Bytes} {a b : TcpSocket} {files : Files} {dir : Bytes}

/-- The end of a connection over which all has been said is that of a run that is not cut. -/
theorem uncut_of_whole (hr : env.Reliable) (ha : a.Fresh) (hb : b.Fresh) (hc : Sendable content)
    (hn : (senderManifest filePath content).filename.length ≤ kMaxFilenameLength)
    (hlimit : (senderManifest filePath content).chunkCount.toNat ≤ 1000000) :
    UncutRun env dir files filePath content
      { a with incoming := saidBy dir files filePath content true }
      { b with incoming := saidBy dir files filePath content false } := by
  have hsender := (senderOn_asked dir files ha hc hn hlimit).2
  have hreceiver := (receiverOn_asking dir files hr hb hn
    (transferStream (senderManifest filePath content) content
      (requestedChunks files (senderManifest filePath content)
        (outputPathFor dir (senderManifest filePath content))))).2
  exact ⟨⟨hr, hc, hn, ha.isOpen, hb.isOpen, ⟨ha.sent, hb.sent⟩, hsender ▸ List.prefix_refl _,
    hreceiver ▸ List.prefix_refl _⟩, ⟨ha.room, hb.room⟩, hsender.symm, hreceiver.symm⟩

/-- Once it has the manifest, the receiver has said all that it says before the end. -/
theorem receiverOn_asked (hr : env.Reliable) (hb : b.Fresh)
    (hn : (senderManifest filePath content).filename.length ≤ kMaxFilenameLength) {x : Bytes}
    (hx : serializeFileManifest (senderManifest filePath content) <+: x) :
    (receiverOn env dir files b x).1.2.sent = saidBy dir files filePath content true := by
  obtain ⟨rest, rfl⟩ := hx
  exact (receiverOn_asking dir files hr hb hn rest).2

theorem manifest_front :
    serializeFileManifest (senderManifest filePath content) <+:
      saidBy dir files filePath content false := List.prefix_append _ _

/-- The sender and the receiver have a conversation, in which each has a turn to speak and the other
listens. -/
theorem ends_conversation (hr : env.Reliable) (ha : a.Fresh) (hb : b.Fresh) (hc : Sendable content)
    (hn : (senderManifest filePath content).filename.length ≤ kMaxFilenameLength)
    (hlimit : (senderManifest filePath content).chunkCount.toNat ≤ 1000000) :
    Conversation (ends env dir files filePath content a b) (saidBy dir files filePath content) where
  settled := by
    intro i
    cases i with
    | false => exact (senderOn_asked dir files ha hc hn hlimit).2
    | true => exact receiverOn_asked hr hb hn manifest_front
  grows := by
    intro i x y hxy hy
    cases i with
    | false =>
      change (senderOn filePath content a x).2.sent <+: (senderOn filePath content a y).2.sent
      by_cases hne : x = y
      · rw [hne]
      · -- with a part of the request only, the sender has sent the manifest
        have hx : x ≠ saidBy dir files filePath content true := by
          rintro rfl
          exact hne (hxy.eq_of_length_le hy.length_le)
        rw [(senderOn_waiting ha hn hlimit (hxy.trans hy) hx).2]
        by_cases hwhole : y = saidBy dir files filePath content true
        · rw [hwhole, (senderOn_asked dir files ha hc hn hlimit).2]
          exact manifest_front
        · rw [(senderOn_waiting ha hn hlimit hy hwhole).2]
    | true =>
      change (receiverOn env dir files b x).1.2.sent <+: (receiverOn env dir files b y).1.2.sent
      by_cases hfront : serializeFileManifest (senderManifest filePath content) <+: x
      · rw [receiverOn_asked hr hb hn hfront, receiverOn_asked hr hb hn (hfront.trans hxy)]
      · rw [(receiverOn_waiting hb hn (hxy.trans hy) hfront).2]
        exact List.nil_prefix
  reads := by
    intro i x hx hne
    obtain ⟨rest, hrest⟩ := hx
    cases i with
    | false =>
      refine ⟨rest, ?_⟩
      rw [hrest, (senderOn_waiting ha hn hlimit ⟨rest, hrest⟩ hne).1]
      change (senderOn filePath content a (saidBy dir files filePath content true)).1 ≠ _
      rw [(senderOn_asked dir files ha hc hn hlimit).1]
      decide
    | true =>
      refine ⟨rest, ?_⟩
      rw [hrest]
      have hcut := receiverOn_cut hr hb hc hn ⟨rest, hrest⟩ hne
      intro heq
      rw [← heq] at hcut
      exact hcut (receiverOn_whole hr hb hc hn).1
  turns := by
    intro x hx
    by_cases hfront : serializeFileManifest (senderManifest filePath content) <+: x true
    · by_cases hwhole : x false = saidBy dir files filePath content true
      · refine ⟨true, ?_⟩
        rw [Bool.not_true, hwhole]
        change (receiverOn env dir files b (x true)).1.2.sent <+: _
        rw [receiverOn_asked hr hb hn hfront]
      · refine ⟨false, ?_⟩
        change (senderOn filePath content a (x false)).2.sent <+: x true
        rw [(senderOn_waiting ha hn hlimit (hx false) hwhole).2]
        exact hfront
    · -- the receiver waits for the manifest and has said nothing
      refine ⟨true, ?_⟩
      change (receiverOn env dir files b (x true)).1.2.sent <+: _
      rw [(receiverOn_waiting hb hn (hx true) hfront).2]
      exact List.nil_prefix
  moves := by
    intro x hx hquiet
    have hsender : (senderOn filePath content a (x false)).2.sent = x true := hquiet false
    have hreceiver : (receiverOn env dir files b (x true)).1.2.sent = x false := hquiet true
    have hanswer := (senderOn_asked dir files ha hc hn hlimit).2
    -- the manifest has arrived, so the request has been sent and has arrived too
    have hfront : serializeFileManifest (senderManifest filePath content) <+: x true := by
      rw [← hsender]
      by_cases hwhole : x false = saidBy dir files filePath content true
      · rw [hwhole, hanswer]
        exact manifest_front
      · rw [(senderOn_waiting ha hn hlimit (hx false) hwhole).2]
    rw [receiverOn_asked hr hb hn hfront] at hreceiver
    rw [← hreceiver, hanswer] at hsender
    intro i
    cases i with
    | false => exact hreceiver.symm
    | true => exact hsender.symm

/-- In whatever state the two ends are when the connection breaks, they have had a run over a
connection that was cut. -/
theorem linked_of_run (hr : env.Reliable) (ha : a.Fresh) (hb : b.Fresh) (hc : Sendable content)
    (hn : (senderManifest filePath content).filename.length ≤ kMaxFilenameLength)
    (hlimit : (senderManifest filePath content).chunkCount.toNat ≤ 1000000) {room : Bool → ℕ} {n : ℕ}
    {t : Traffic UInt8} (h : Run (ends env dir files filePath content a b) room n t) :
    LinkedRun env dir files filePath content { a with incoming := t.taken false }
      { b with incoming := t.taken true } := by
  obtain ⟨hw, -⟩ := (ends_conversation hr ha hb hc hn hlimit).run h
  exact ⟨hr, hc, hn, ha.isOpen, hb.isOpen, ⟨ha.sent, hb.sent⟩,
    (hw.takes true).trans (hw.sends false), (hw.takes false).trans (hw.sends true)⟩

end Conversation

/-- The directories that connections between the sender and the receiver can leave, each broken in
any state of the two ends. -/
inductive BrokenRuns (dir filePath content : Bytes) (files : Files) : Files → Prop where
  | start : BrokenRuns dir filePath content files files
  | broken {files' : Files} (before : BrokenRuns dir filePath content files files') (env : Env)
    (hr : env.Reliable) (a b : TcpSocket) (ha : a.Fresh) (hb : b.Fresh) (room : Bool → ℕ) (n : ℕ)
    (t : Traffic UInt8) (h : Run (ends env dir files' filePath content a b) room n t) :
    BrokenRuns dir filePath content files (receiverOn env dir files' b (t.taken true)).2.files

section Runs

variable {dir filePath content : Bytes} {files files' : Files}

theorem BrokenRuns.cut (hc : Sendable content)
    (hn : (senderManifest filePath content).filename.length ≤ kMaxFilenameLength)
    (hlimit : (senderManifest filePath content).chunkCount.toNat ≤ 1000000)
    (h : BrokenRuns dir filePath content files files') :
    CutRuns dir filePath content files files' := by
  induction h with
  | start => exact .start
  | broken before env hr a b ha hb room n t hrun ih =>
    exact ih.run env filePath content rfl (Or.inl rfl) _ _
      (linked_of_run hr ha hb hc hn hlimit hrun)

end Runs

/-- However the steps of the sender and the receiver are interleaved, however little the connection
holds, and whatever the receiver finds in its directory: the two never block each other, no run goes
on for ever, and when none can go on the sender has sent everything and the receiver has compared
the hashes, with success exactly when they agree. -/
theorem interleaving_ends (dir filePath content : Bytes) (hc : Sendable content)
    (hn : (senderManifest filePath content).filename.length ≤ kMaxFilenameLength)
    (hlimit : (senderManifest filePath content).chunkCount.toNat ≤ 1000000) (files : Files)
    (env : Env) (hr : env.Reliable) (a b : TcpSocket) (ha : a.Fresh) (hb : b.Fresh)
    (room : Bool → ℕ) (hroom : ∀ i, 0 < room i) (n : ℕ) (t : Traffic UInt8)
    (hrun : Run (ends env dir files filePath content a b) room n t) :
    let said := saidBy dir files filePath content
    let total := 2*((said true).length+(said false).length)
    let received := receiverOn env dir files b (t.taken true)
    n ≤ total ∧
      (n < total → ∃ t', Step (ends env dir files filePath content a b) room t t') ∧
      (n = total → (senderOn filePath content a (t.taken false)).1 = .complete ∧
        received.1.1.Compared ∧
        ∃ c, received.2.files (outputPathFor dir (senderManifest filePath content)) = some c ∧
          (received.1.1.code = 0 ↔ sha256File c = sha256File content)) := by
  intro said total received
  obtain ⟨hle, hprogress, hend⟩ := (ends_conversation hr ha hb hc hn hlimit).completes hroom hrun
  refine ⟨hle, hprogress, ?_⟩
  intro hall
  have htaken (i : Bool) := (hend hall i).2
  simp only [received, htaken false, htaken true, Bool.not_false, Bool.not_true]
  exact ⟨(senderOn_asked dir files ha hc hn hlimit).1, receiverOn_whole hr hb hc hn⟩

/-- Over an old output of two bytes, with one byte in flight at most. -/
theorem interleaving_ends_byte :
    ∃ n t, Run (ends Env.direct (ascii "in") twoByteOutput (ascii "a") [1] {} {}) (fun _ => 1) n t ∧
      (senderOn (ascii "a") [1] {} (t.taken false)).1 = .complete ∧
      (receiverOn Env.direct (ascii "in") twoByteOutput {} (t.taken true)).1.1.Compared := by
  have hfresh : TcpSocket.Fresh {} := ⟨rfl, rfl, rfl⟩
  have hconv : Conversation (ends Env.direct (ascii "in") twoByteOutput (ascii "a") [1] {} {})
      (saidBy (ascii "in") twoByteOutput (ascii "a") [1]) :=
    ends_conversation Env.direct_reliable hfresh hfresh (sendable_byte 1) (by decide) (by decide)
  obtain ⟨t, hrun⟩ := hconv.exists_run (fun _ => Nat.one_pos) _ le_rfl
  obtain ⟨-, -, hend⟩ := interleaving_ends (ascii "in") (ascii "a") [1] (sendable_byte 1)
    (by decide) (by decide) twoByteOutput Env.direct Env.direct_reliable {} {} hfresh hfresh
    (fun _ => 1) (fun _ => Nat.one_pos) _ t hrun
  obtain ⟨hsender, hcompared, -⟩ := hend rfl
  exact ⟨_, t, hrun, hsender, hcompared⟩

/-- In a directory without a checkpoint, or where connections have broken since, in any state of the
two ends, they always end with the file. -/
theorem interleaving_completes (dir filePath content : Bytes) (hc : Sendable content)
    (hn : (senderManifest filePath content).filename.length ≤ kMaxFilenameLength)
    (hlimit : (senderManifest filePath content).chunkCount.toNat ≤ 1000000) (files files' : Files)
    (hstart : files (checkpointPathForOutput
      (outputPathFor dir (senderManifest filePath content))) = none)
    (h : BrokenRuns dir filePath content files files') (env : Env) (hr : env.Reliable)
    (a b : TcpSocket) (ha : a.Fresh) (hb : b.Fresh) (room : Bool → ℕ) (hroom : ∀ i, 0 < room i)
    (n : ℕ) (t : Traffic UInt8)
    (hrun : Run (ends env dir files' filePath content a b) room n t)
    (hstuck : ∀ t', ¬ Step (ends env dir files' filePath content a b) room t t') :
    let received := receiverOn env dir files' b (t.taken true)
    (senderOn filePath content a (t.taken false)).1 = .complete ∧ received.1.1.code = 0 ∧
      received.2.files (outputPathFor dir (senderManifest filePath content)) = some content ∧
      received.2.files (checkpointPathForOutput
        (outputPathFor dir (senderManifest filePath content))) = none := by
  intro received
  have htrust := (h.cut hc hn hlimit).trusted hc hstart
  have hconv : Conversation (ends env dir files' filePath content a b)
      (saidBy dir files' filePath content) := ends_conversation hr ha hb hc hn hlimit
  have htaken (i : Bool) := (hconv.progress hroom (hconv.run hrun).1 hstuck i).2
  simp only [received, htaken false, htaken true, Bool.not_false, Bool.not_true]
  exact ⟨(senderOn_asked dir files' ha hc hn hlimit).1,
    (uncut_of_whole hr ha hb hc hn hlimit).completes hlimit htrust⟩

/-- A first connection with one byte in flight at most breaks one step before its end, and a second
one completes the transfer. -/
theorem interleaving_completes_abc :
    ∃ n₀ t₀ n t files', Run (ends Env.direct (ascii "in") emptyDirectory (ascii "dir/a.txt")
        (ascii "abc") {} {}) (fun _ => 1) n₀ t₀ ∧
      files' = (receiverOn Env.direct (ascii "in") emptyDirectory {} (t₀.taken true)).2.files ∧
      Run (ends Env.direct (ascii "in") files' (ascii "dir/a.txt") (ascii "abc") {} {})
        (fun _ => 1) n t ∧
      (senderOn (ascii "dir/a.txt") (ascii "abc") {} (t.taken false)).1 = .complete ∧
      (receiverOn Env.direct (ascii "in") files' {} (t.taken true)).1.1.code = 0 ∧
      (receiverOn Env.direct (ascii "in") files' {} (t.taken true)).2.files
        (ascii "in/received_a.txt") = some (ascii "abc") := by
  have hc : Sendable (ascii "abc") := by decide
  have hfresh : TcpSocket.Fresh {} := ⟨rfl, rfl, rfl⟩
  have hconv (files : Files) : Conversation
      (ends Env.direct (ascii "in") files (ascii "dir/a.txt") (ascii "abc") {} {})
      (saidBy (ascii "in") files (ascii "dir/a.txt") (ascii "abc")) :=
    ends_conversation Env.direct_reliable hfresh hfresh hc (by decide) (by decide)
  obtain ⟨t₀, hfirst⟩ := (hconv emptyDirectory).exists_run (fun _ => Nat.one_pos) _
    (Nat.sub_le _ 1)
  have hbroken := BrokenRuns.start.broken Env.direct Env.direct_reliable {} {} hfresh hfresh
    (fun _ => 1) _ t₀ hfirst
  generalize hfiles : (receiverOn Env.direct (ascii "in") emptyDirectory {} (t₀.taken true)).2.files =
    files' at hbroken
  obtain ⟨t, hrun⟩ := (hconv files').exists_run (fun _ => Nat.one_pos) _ le_rfl
  have hstuck (t' : Traffic UInt8) : ¬ Step
      (ends Env.direct (ascii "in") files' (ascii "dir/a.txt") (ascii "abc") {} {})
      (fun _ => 1) t t' := by
    intro hstep
    exact absurd ((hconv files').completes (fun _ => Nat.one_pos) (hrun.step hstep)).1
      (Nat.not_succ_le_self _)
  obtain ⟨hsender, hcode, hout, -⟩ := interleaving_completes (ascii "in") (ascii "dir/a.txt")
    (ascii "abc") hc (by decide) (by decide) emptyDirectory files' rfl hbroken Env.direct
    Env.direct_reliable {} {} hfresh hfresh (fun _ => 1) (fun _ => Nat.one_pos) _ t hrun hstuck
  exact ⟨_, t₀, _, t, files', hfirst, hfiles.symm, hrun, hsender, hcode, hout⟩

end PacketBridge
