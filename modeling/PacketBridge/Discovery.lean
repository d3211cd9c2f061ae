import PacketBridge.Protocol
import PacketBridge.Foundations.Text
import Mathlib.Data.List.TakeWhile

namespace PacketBridge
open Foundations

/-- A reading of the steady clock, in nanoseconds. -/
abbrev TimePoint := ℤ

structure Peer where
  name : Bytes
  ipAddress : Bytes
  transferPort : UInt16
  lastSeen : TimePoint
  protocolVersion : UInt16
  deriving DecidableEq

def kDiscoveryMarker : Bytes := ascii "PACKETBRIDGE_DISCOVER"
def kMaxPeerNameLength : ℕ := 64

def bar : UInt8 := 124

def buildDiscoveryMessage (peerName : Bytes) (transferPort : UInt16) : Bytes :=
  kDiscoveryMarker ++ ascii "|" ++ toDecimal kProtocolVersion.toNat ++ ascii "|" ++ peerName ++
    ascii "|" ++ toDecimal transferPort.toNat

def safePeerName (requestedName : Bytes) : Bytes :=
  if requestedName = [] ∨ bar ∈ requestedName then ascii "packetbridge-node"
  else if requestedName.length > kMaxPeerNameLength then requestedName.take kMaxPeerNameLength
  else requestedName

def splitMessage (message : Bytes) : List Bytes := getlines bar message

/-- `none` also stands for the exception of a value past 64 bits. -/
def parseUnsigned (value : Bytes) : Option UInt64 :=
  if value = [] ∨ value.all isDigit = false then none else stoull value

def isValidPeerName (peerName : Bytes) : Bool :=
  peerName ≠ [] ∧ peerName.length ≤ kMaxPeerNameLength ∧ bar ∉ peerName

/-- `seen` is the clock reading taken for an announcement that parses. -/
def parseDiscoveryMessage (message senderIp : Bytes) (seen : TimePoint) : Option Peer :=
  match splitMessage message with
  | [marker, version, name, port] =>
    if marker ≠ kDiscoveryMarker then none
    else if parseUnsigned version ≠ some kProtocolVersion.toUInt64 then none
    else if isValidPeerName name = false then none
    else
      match parseUnsigned port with
      | none => none
      | some transferPort =>
        if transferPort = 0 ∨ transferPort > 65535 then none
        else some {
          name
          ipAddress := senderIp
          transferPort := transferPort.toUInt16
          lastSeen := seen
          protocolVersion := kProtocolVersion }
  | _ => none

def Digits (value : Bytes) : Prop := value ≠ [] ∧ ∀ b ∈ value, isDigit b = true

theorem digits_toDecimal (n : ℕ) : Digits (toDecimal n) :=
  ⟨toDecimal_ne_nil n, isDigit_of_mem_toDecimal n⟩

theorem Digits.bar_not_mem {value : Bytes} (h : Digits value) : bar ∉ value := by
  intro hm
  have hdigit := h.2 bar hm
  revert hdigit
  decide

/-- The parser reads the digit strings whose value fits in 64 bits, and nothing else. -/
theorem parseUnsigned_eq_some_iff (value : Bytes) (u : UInt64) :
    parseUnsigned value = some u ↔ Digits value ∧ ofDecimal value = u.toNat := by
  rw [parseUnsigned]
  by_cases hd : Digits value
  · have hall : value.all isDigit = true := List.all_eq_true.mpr hd.2
    have hread := stoull_digits_eq value [] hd.2 hd.1 (by
      simp only [List.head?_nil, Option.mem_def, reduceCtorEq, false_implies, implies_true])
    rw [List.append_nil] at hread
    rw [if_neg (by
      rw [not_or, hall]
      exact ⟨hd.1, Bool.noConfusion⟩), hread]
    have hu := u.toNat_lt
    by_cases hbig : 2^64 ≤ ofDecimal value
    · rw [if_pos hbig]
      refine iff_of_false (by rintro ⟨⟩) ?_
      rintro ⟨-, hvalue⟩
      omega
    · rw [if_neg hbig, Option.some.injEq, ← UInt64.toNat_inj,
        UInt64.toNat_ofNat_of_lt' (not_le.mp hbig)]
      exact ⟨fun h => ⟨hd, h⟩, And.right⟩
  · rw [if_pos]
    · exact iff_of_false (by rintro ⟨⟩) fun h => hd h.1
    · by_contra h
      rw [not_or, Bool.not_eq_false, List.all_eq_true] at h
      exact hd h

theorem isValidPeerName_iff (name : Bytes) : isValidPeerName name = true ↔
    1 ≤ name.length ∧ name.length ≤ kMaxPeerNameLength ∧ bar ∉ name := by
  rw [isValidPeerName, decide_eq_true_eq, Nat.one_le_iff_ne_zero, ne_eq, ne_eq,
    List.length_eq_zero_iff]

end PacketBridge
