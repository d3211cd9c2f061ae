import PacketBridge.Protocol
import PacketBridge.Foundations.Text
import Mathlib.Data.List.TakeWhile

namespace PacketBridge
open Foundations

def isSeparator (b : UInt8) : Bool := b == 47 || b == 92

def basenameFromPath (path : Bytes) : Bytes :=
  (path.reverse.takeWhile fun b => !isSeparator b).reverse

def isAlnum (b : UInt8) : Bool := isDigit b || (65 ≤ b && b ≤ 90) || (97 ≤ b && b ≤ 122)

def isPortable (b : UInt8) : Bool := isAlnum b || b == 46 || b == 45 || b == 95

def sanitizeFilename (filename : Bytes) : Bytes :=
  let base := basenameFromPath filename
  let sanitized := base.map fun ch => if isPortable ch then ch else 95
  let sanitized := sanitized.dropWhile (· == 46)
  if sanitized = [] then ascii "file" else sanitized

/-- The size `tellg` reports at the end of the file. -/
def fileSize (content : Bytes) : UInt64 := UInt64.ofNat content.length

def chunkCount (size : UInt64) (chunkSize : UInt32) : UInt64 :=
  if chunkSize = 0 then 0 else (size + chunkSize.toUInt64 - 1)/chunkSize.toUInt64

def joinOutputPath (directory filename : Bytes) : Bytes :=
  if directory = [] ∨ directory = ascii "." then filename
  else if directory.getLast? = some 47 ∨ directory.getLast? = some 92 then directory ++ filename
  else directory ++ ascii "/" ++ filename

theorem joinOutputPath_injective (directory a b : Bytes)
    (h : joinOutputPath directory a = joinOutputPath directory b) : a = b := by
  unfold joinOutputPath at h
  split_ifs at h
  · exact h
  · exact List.append_cancel_left h
  · exact List.append_cancel_left h

theorem isPortable_of_mem_sanitizeFilename (filename : Bytes) (b : UInt8)
    (hb : b ∈ sanitizeFilename filename) : isPortable b = true := by
  simp only [sanitizeFilename] at hb
  split at hb
  · exact List.all_eq_true.mp (show (ascii "file").all isPortable = true by decide) b hb
  · have hm := (List.dropWhile_suffix (fun x : UInt8 => x == 46)).subset hb
    obtain ⟨ch, -, rfl⟩ := List.mem_map.mp hm
    split
    · assumption
    · decide

/-- A sanitized name is a plain file name: no separator and no line break can be in it. -/
theorem not_mem_sanitizeFilename (filename : Bytes) (b : UInt8) (hb : isPortable b = false) :
    b ∉ sanitizeFilename filename := by
  intro hm
  rw [isPortable_of_mem_sanitizeFilename filename b hm] at hb
  cases hb

theorem sanitizeFilename_ne_nil (filename : Bytes) : sanitizeFilename filename ≠ [] := by
  simp only [sanitizeFilename]
  split
  · decide
  · assumption

theorem basenameFromPath_eq_self (name : Bytes) (h : ∀ b ∈ name, isSeparator b = false) :
    basenameFromPath name = name := by
  rw [basenameFromPath, List.takeWhile_eq_self_iff.mpr, List.reverse_reverse]
  intro b hb
  rw [h b (List.mem_reverse.mp hb), Bool.not_false]

theorem isSeparator_of_isPortable (b : UInt8) (h : isPortable b = true) :
    isSeparator b = false := by
  by_contra hs
  rw [Bool.not_eq_false, isSeparator, Bool.or_eq_true, beq_iff_eq, beq_iff_eq] at hs
  rcases hs with rfl | rfl <;> revert h <;> decide

theorem head?_sanitizeFilename (filename : Bytes) :
    (sanitizeFilename filename).head? ≠ some 46 := by
  simp only [sanitizeFilename]
  split
  · decide
  · intro hh
    have hp := List.head?_dropWhile_not (fun x : UInt8 => x == 46)
      ((basenameFromPath filename).map fun ch => if isPortable ch then ch else 95)
    rw [hh] at hp
    revert hp
    decide

/-- The receiver sanitizes the name again; this changes nothing. -/
theorem sanitizeFilename_idem (filename : Bytes) :
    sanitizeFilename (sanitizeFilename filename) = sanitizeFilename filename := by
  have hport := isPortable_of_mem_sanitizeFilename filename
  have hne := sanitizeFilename_ne_nil filename
  have hhead := head?_sanitizeFilename filename
  generalize sanitizeFilename filename = name at hport hne hhead ⊢
  have hbase := basenameFromPath_eq_self name fun b hb => isSeparator_of_isPortable b (hport b hb)
  have hmap : (name.map fun ch => if isPortable ch then ch else 95) = name := by
    rw [List.map_congr_left (g := id) fun b hb => by rw [if_pos (hport b hb), id], List.map_id]
  have hdrop : name.dropWhile (· == 46) = name := by
    cases name with
    | nil => rfl
    | cons b bs =>
      rw [List.dropWhile_cons_of_neg]
      intro hb
      exact hhead (by rw [List.head?_cons, beq_iff_eq.mp hb])
  rw [sanitizeFilename, hbase, hmap, hdrop, if_neg hne]

end PacketBridge
