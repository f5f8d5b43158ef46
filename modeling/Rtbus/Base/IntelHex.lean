import Mathlib.Algebra.GroupWithZero.Nat
import Rtbus.Base.Lines
import Rtbus.Base.Memory

/-!
# Intel HEX

A record is a line of text: a colon, and in hexadecimal the number of data bytes, an address, a type,
the data and a checksum that makes all of its bytes sum to 0 modulo 256. A record of type 04 sets the
upper half of the address of the data records (type 00) that follow; a record of type 01 ends the
file.

`decode` reads such a text, and says for each data byte in turn the address it is for. `Reads` is said
of a text that is written record by record, with one rule for each type of record.
-/

namespace Rtbus.IntelHex

/-- A record without its length and its checksum. -/
structure Record where
  type : UInt8
  address : UInt16
  data : List UInt8
  deriving DecidableEq

/-- A digit of `%X`. -/
def hexDigit (d : Nat) : UInt8 := UInt8.ofNat (if d < 10 then 48 + d else 55 + d)

/-- What a digit stands for. -/
def hexValue (c : UInt8) : Option Nat :=
  if 48 ≤ c ∧ c ≤ 57 then some (c.toNat - 48)
  else if 65 ≤ c ∧ c ≤ 70 then some (c.toNat - 55)
  else if 97 ≤ c ∧ c ≤ 102 then some (c.toNat - 87)
  else none

/-- `%02X` of a byte. -/
def hex2 (byte : UInt8) : List UInt8 :=
  [hexDigit (byte.toNat / 16), hexDigit (byte.toNat % 16)]

/-- `%04X` of two bytes. -/
def hex4 (word : UInt16) : List UInt8 :=
  [hexDigit (word.toNat / 4096), hexDigit (word.toNat / 256 % 16), hexDigit (word.toNat / 16 % 16),
    hexDigit (word.toNat % 16)]

/-- The bytes that pairs of digits stand for. -/
def hexBytes : List UInt8 → Option (List UInt8)
  | [] => some []
  | high :: low :: rest =>
    match hexValue high, hexValue low, hexBytes rest with
    | some h, some l, some bytes => some (UInt8.ofNat (h * 16 + l) :: bytes)
    | _, _, _ => none
  | [_] => none

/-- The sum of all bytes, modulo 256. -/
def byteSum (bytes : List UInt8) : Nat := (bytes.map UInt8.toNat).sum % 256

/-- The bytes of a record before its checksum. -/
def Record.body (r : Record) : List UInt8 :=
  UInt8.ofNat r.data.length :: (r.address >>> 8).toUInt8 :: r.address.toUInt8 :: r.type :: r.data

/-- The record that some bytes are, if their length and their sum are right. -/
def decodeBytes : List UInt8 → Option Record
  | len :: high :: low :: type :: more =>
    if more.length = len.toNat + 1 ∧ byteSum (len :: high :: low :: type :: more) = 0 then
      some ⟨type, high.toUInt16 <<< 8 ||| low.toUInt16, more.take len.toNat⟩
    else none
  | _ => none

/-- The record that a line holds. -/
def decodeLine : List UInt8 → Option Record
  | [] => none
  | c :: digits => if c = 0x3a then (hexBytes digits).bind decodeBytes else none

/-- Bytes at consecutive addresses. -/
def placed (address : Nat) : List UInt8 → List (Nat × UInt8)
  | [] => []
  | byte :: bytes => (address, byte) :: placed (address + 1) bytes

/-- What some records say for an upper half of the address: one record ends the file, the last. -/
def decodeRecords (upper : Nat) : List Record → Option (List (Nat × UInt8))
  | [] => none
  | r :: rest =>
    if r.type = 0 then
      (decodeRecords upper rest).map (placed (upper * 65536 + r.address.toNat) r.data ++ ·)
    else if r.type = 4 then
      match r.data with
      | [high, low] => decodeRecords (high.toNat * 256 + low.toNat) rest
      | _ => none
    else if r.type = 1 ∧ r.data = [] ∧ rest = [] then some []
    else none

/-- The contents of a file: every line is a record, and the last line has ended. -/
def decode (text : List UInt8) : Option (List (Nat × UInt8)) :=
  if Lines.current (· == 10) text = [] then
    ((Lines.complete (· == 10) text).mapM decodeLine).bind (decodeRecords 0)
  else none

/-- The line of a record, whose checksum is the negated sum. -/
def Record.line (r : Record) (checksum : UInt8) : List UInt8 :=
  0x3a :: (r.body ++ [checksum]).flatMap hex2

section Digits

theorem hexValue_hexDigit {d : Nat} (h : d < 16) : hexValue (hexDigit d) = some d := by
  have hall : ∀ d : Fin 16, hexValue (hexDigit d) = some d.val := by decide
  exact hall ⟨d, h⟩

theorem hexDigit_ne_newline {d : Nat} (h : d < 16) : (hexDigit d == 10) = false := by
  have hall : ∀ d : Fin 16, (hexDigit d == 10) = false := by decide
  exact hall ⟨d, h⟩

theorem hexBytes_hex2 (bytes : List UInt8) : hexBytes (bytes.flatMap hex2) = some bytes := by
  induction bytes with
  | nil => rfl
  | cons byte bytes ih =>
    have hlt := byte.toNat_lt
    have hbyte : UInt8.ofNat (byte.toNat / 16 * 16 + byte.toNat % 16) = byte := by
      rw [Nat.div_add_mod', UInt8.ofNat_toNat]
    show hexBytes (hexDigit (byte.toNat / 16) :: hexDigit (byte.toNat % 16) :: bytes.flatMap hex2) = _
    rw [hexBytes, hexValue_hexDigit (by omega), hexValue_hexDigit (by omega), ih]
    dsimp only
    rw [hbyte]

theorem hex4_eq (word : UInt16) :
    hex4 word = hex2 (word >>> 8).toUInt8 ++ hex2 word.toUInt8 := by
  have hlt := word.toNat_lt
  have hhigh : (word >>> 8).toUInt8.toNat = word.toNat / 256 := by
    simp [Nat.shiftRight_eq_div_pow]
    omega
  have hlow : word.toUInt8.toNat = word.toNat % 256 := UInt16.toNat_toUInt8 word
  have hfirst : word.toNat / 256 / 16 = word.toNat / 4096 := Nat.div_div_eq_div_mul _ _ _
  have hthird : word.toNat % 256 / 16 = word.toNat / 16 % 16 := by omega
  have hfourth : word.toNat % 256 % 16 = word.toNat % 16 := by omega
  unfold hex4 hex2
  rw [hhigh, hlow, hfirst, hthird, hfourth]
  rfl

theorem hex2_no_newline (bytes : List UInt8) : ∀ c ∈ bytes.flatMap hex2, (c == 10) = false := by
  intro c hc
  obtain ⟨byte, _, hc⟩ := List.mem_flatMap.mp hc
  have hlt := byte.toNat_lt
  rcases List.mem_cons.mp hc with rfl | hc
  · exact hexDigit_ne_newline (by omega)
  · rw [List.mem_singleton.mp hc]
    exact hexDigit_ne_newline (by omega)

end Digits

section Text

variable {r : Record} {checksum : UInt8}

/-- The checksum of a record makes its bytes sum to 0. -/
def Record.Checked (r : Record) (checksum : UInt8) : Prop := byteSum (r.body ++ [checksum]) = 0

/-- A line is read as the record it was written for. -/
theorem decodeLine_line (short : r.data.length < 256) (checked : r.Checked checksum) :
    decodeLine (r.line checksum) = some r := by
  have hlen : (UInt8.ofNat r.data.length).toNat = r.data.length := by
    rw [UInt8.toNat_ofNat']
    exact Nat.mod_eq_of_lt short
  unfold Record.Checked at checked
  unfold Record.line
  rw [decodeLine, if_pos rfl, hexBytes_hex2, Option.bind_some]
  unfold Record.body at checked ⊢
  rw [List.cons_append, List.cons_append, List.cons_append, List.cons_append] at checked ⊢
  rw [decodeBytes, if_pos ⟨by rw [List.length_append, hlen]; rfl, checked⟩, hlen, List.take_left,
    word_of_bytes]

theorem line_no_newline (r : Record) (checksum : UInt8) :
    ∀ c ∈ r.line checksum, (c == 10) = false := by
  intro c hc
  rcases List.mem_cons.mp hc with rfl | hc
  · rfl
  · exact hex2_no_newline _ c hc

/-- A checksum computed in eight bits. -/
theorem foldl_add (bytes : List UInt8) (s : UInt8) :
    (bytes.foldl (· + ·) s).toNat = (s.toNat + (bytes.map UInt8.toNat).sum) % 256 := by
  induction bytes generalizing s with
  | nil => exact (Nat.mod_eq_of_lt s.toNat_lt).symm
  | cons byte bytes ih =>
    rw [List.foldl_cons, ih, UInt8.toNat_add, List.map_cons, List.sum_cons]
    omega

/-- The negated sum of the bytes before it is the checksum. -/
theorem checked_of_sum {sum : UInt8} (h : r.body.foldl (· + ·) 0 = sum) : r.Checked (0 - sum) := by
  have hfold := foldl_add (r.body ++ [0 - sum]) 0
  rw [List.foldl_append, h, List.foldl_cons, List.foldl_nil] at hfold
  have hzero : sum + (0 - sum) = 0 := by
    rw [UInt8.zero_sub, UInt8.add_right_neg]
  rw [hzero, UInt8.toNat_zero, Nat.zero_add] at hfold
  exact hfold.symm

end Text

section Reads

/-- A text, read behind an upper half of the address, gives these bytes at these addresses. -/
def Reads (upper : Nat) (text : List UInt8) (bytes : List (Nat × UInt8)) : Prop :=
  ∃ lines records, text = Lines.frame 10 lines ∧
    List.Forall₂ (fun line r => decodeLine line = some r ∧ ∀ c ∈ line, (c == 10) = false)
      lines records ∧
    decodeRecords upper records = some bytes

variable {upper : Nat} {text : List UInt8} {bytes : List (Nat × UInt8)} {r : Record}
  {checksum : UInt8}

theorem Reads.cons {upper' : Nat} {bytes' : List (Nat × UInt8)} (h : Reads upper text bytes)
    (short : r.data.length < 256) (checked : r.Checked checksum)
    (step : ∀ rest, decodeRecords upper rest = some bytes →
      decodeRecords upper' (r :: rest) = some bytes') :
    Reads upper' (r.line checksum ++ 10 :: text) bytes' := by
  obtain ⟨lines, records, rfl, hlines, hread⟩ := h
  exact ⟨r.line checksum :: lines, r :: records, (Lines.frame_cons ..).symm,
    .cons ⟨decodeLine_line short checked, line_no_newline r checksum⟩ hlines, step _ hread⟩

/-- The record that ends a file. -/
theorem reads_eof {address : UInt16} (checked : Record.Checked ⟨1, address, []⟩ checksum) :
    Reads upper (Record.line ⟨1, address, []⟩ checksum ++ [10]) [] :=
  ⟨[_], [_], (List.append_nil _).symm,
    .cons ⟨decodeLine_line (Nat.zero_lt_succ _) checked, line_no_newline _ checksum⟩ .nil, rfl⟩

/-- A data record comes before what follows it. -/
theorem Reads.data (h : Reads upper text bytes) {address : UInt16} {data : List UInt8}
    (short : data.length < 256) (checked : Record.Checked ⟨0, address, data⟩ checksum) :
    Reads upper (Record.line ⟨0, address, data⟩ checksum ++ 10 :: text)
      (placed (upper * 65536 + address.toNat) data ++ bytes) := by
  refine h.cons short checked fun rest hrest => ?_
  rw [decodeRecords, if_pos rfl, hrest]
  rfl

/-- A record of type 04 is for what follows it. -/
theorem Reads.extended {high low : UInt8} {address : UInt16}
    (h : Reads (high.toNat * 256 + low.toNat) text bytes)
    (checked : Record.Checked ⟨4, address, [high, low]⟩ checksum) :
    Reads upper (Record.line ⟨4, address, [high, low]⟩ checksum ++ 10 :: text) bytes := by
  have hshort : [high, low].length < 256 := by
    rw [List.length_cons, List.length_singleton]
    decide
  have htype : (4 : UInt8) ≠ 0 := by decide
  refine h.cons hshort checked fun rest hrest => ?_
  rw [decodeRecords, if_neg htype, if_pos rfl]
  exact hrest

/-- What a text gives is what the file holds. -/
theorem Reads.decode (h : Reads 0 text bytes) : decode text = some bytes := by
  obtain ⟨lines, records, rfl, hlines, hbytes⟩ := h
  have hends : ∀ line ∈ lines, ∀ c ∈ line, (c == 10) = false := by
    clear hbytes
    induction hlines with
    | nil => exact nofun
    | cons hline _ ih => exact List.forall_mem_cons.mpr ⟨hline.2, ih⟩
  have hread : lines.mapM decodeLine = some records := by
    clear hbytes hends
    induction hlines with
    | nil => rfl
    | cons hline _ ih =>
      rw [List.mapM_cons, hline.1, ih]
      rfl
  have hsplit := @Lines.split_frame _ (· == (10 : UInt8)) 10 _ (by decide) hends
  unfold IntelHex.decode Lines.current Lines.complete
  rw [hsplit, if_pos rfl, hread]
  exact hbytes

theorem placed_append (address : Nat) (a b : List UInt8) :
    placed address (a ++ b) = placed address a ++ placed (address + a.length) b := by
  induction a generalizing address with
  | nil => rfl
  | cons byte a ih =>
    rw [List.cons_append, placed, ih, placed, List.length_cons, Nat.add_right_comm, Nat.add_assoc]
    rfl

/-- The bytes from an offset on are the next few of them and the rest. -/
theorem placed_drop (base : Nat) {bytes : List UInt8} {offset n : Nat}
    (h : offset + n ≤ bytes.length) :
    placed (base + offset) (bytes.drop offset) =
      placed (base + offset) ((bytes.drop offset).take n) ++
        placed (base + (offset + n)) (bytes.drop (offset + n)) := by
  have hlength : ((bytes.drop offset).take n).length = n := by
    rw [List.length_take, List.length_drop]
    omega
  have happend := placed_append (base + offset) ((bytes.drop offset).take n)
    ((bytes.drop offset).drop n)
  rwa [List.take_append_drop, hlength, List.drop_drop, Nat.add_assoc] at happend

end Reads

end Rtbus.IntelHex
