import Rtbus.Base.IntelHex

/-!
# The component as Intel HEX

`write_component_ihex` writes header and payload in rows of 16 bytes, with a record of type 04 in
front of a row whose address has another upper half than the last one had. The address of a row is 32
bits wide and grows with the offset, so it does not wrap as long as the component ends at 2^32 or
before.
-/

namespace Rtbus.Host

open IntelHex

/-- `IHEX_ROW_SIZE`. -/
def ihexRowSize : Nat := 16

/-- `write_ihex_record`. -/
def writeIhexRecord (type : UInt8) (address : UInt16) (data : List UInt8) : List UInt8 :=
  let len := UInt8.ofNat data.length
  let sum := len + (address >>> 8).toUInt8 + address.toUInt8 + type
  let sum := data.foldl (· + ·) sum
  0x3a :: hex2 len ++ hex4 address ++ hex2 type ++ data.flatMap hex2 ++ hex2 (0 - sum) ++ [10]

/-- The row of `write_component_ihex` at an offset. -/
def ihexRow (header payload : List UInt8) (offset rowLen : Nat) : List UInt8 :=
  (List.range rowLen).map fun i =>
    let sourceOffset := offset + i
    if sourceOffset < 128 then header.getD sourceOffset 0 else payload.getD (sourceOffset - 128) 0

/-- The loop of `write_component_ihex`; every turn takes at least one byte, so the total size is
fuel enough. -/
def ihexRows (header payload : List UInt8) : Nat → UInt32 → UInt32 → Nat → List UInt8
  | 0, _, _, _ => []
  | fuel + 1, address, currentUpper, offset =>
    let totalSize := 128 + payload.length
    if offset < totalSize then
      let rowLen := min (totalSize - offset) ihexRowSize
      let upper := address >>> 16
      let row := ihexRow header payload offset rowLen
      (if upper ≠ currentUpper then
        writeIhexRecord 0x04 0 [(upper >>> 8).toUInt8, upper.toUInt8] else []) ++
      writeIhexRecord 0x00 address.toUInt16 row ++
      -- whether the record was written or not, `current_upper` is this row's upper half now
      ihexRows header payload fuel (address + UInt32.ofNat rowLen) upper (offset + rowLen)
    else []

/-- The text that `write_component_ihex` writes. -/
def writeComponentIhex (base : UInt32) (header payload : List UInt8) : List UInt8 :=
  ihexRows header payload (128 + payload.length) base 0xffffffff 0 ++ writeIhexRecord 0x01 0 []

/-- A record is a line with its checksum. -/
theorem writeIhexRecord_eq (type : UInt8) (address : UInt16) (data : List UInt8) :
    ∃ checksum, Record.Checked ⟨type, address, data⟩ checksum ∧
      writeIhexRecord type address data = Record.line ⟨type, address, data⟩ checksum ++ [10] := by
  refine ⟨_, checked_of_sum rfl, ?_⟩
  have hsum : (Record.body ⟨type, address, data⟩).foldl (· + ·) 0 =
      data.foldl (· + ·)
        (UInt8.ofNat data.length + (address >>> 8).toUInt8 + address.toUInt8 + type) := by
    unfold Record.body
    rw [List.foldl_cons, List.foldl_cons, List.foldl_cons, List.foldl_cons, UInt8.zero_add]
  unfold writeIhexRecord Record.line
  rw [hsum, hex4_eq, List.flatMap_append, List.flatMap_singleton]
  unfold Record.body
  simp only [List.flatMap_cons, List.append_assoc, List.cons_append]

theorem ihexRow_eq {header : List UInt8} (hheader : header.length = 128) (payload : List UInt8)
    {offset rowLen : Nat} (fits : offset + rowLen ≤ 128 + payload.length) :
    ihexRow header payload offset rowLen = ((header ++ payload).drop offset).take rowLen := by
  refine List.ext_getElem ?_ fun i hi _ => ?_
  · simp only [ihexRow, List.length_map, List.length_range, List.length_take, List.length_drop,
      List.length_append, hheader]
    omega
  · have hlt : i < rowLen := by simpa [ihexRow] using hi
    simp only [ihexRow, List.getElem_map, List.getElem_range, List.getElem_take, List.getElem_drop]
    split
    · next h =>
      rw [List.getElem_append_left (by omega), List.getD_eq_getElem?_getD,
        List.getElem?_eq_getElem (by omega), Option.getD_some]
    · next h =>
      rw [List.getElem_append_right (by omega), List.getD_eq_getElem?_getD,
        List.getElem?_eq_getElem (by omega), Option.getD_some]
      simp only [hheader]

/-- The two bytes of a record of type 04. -/
theorem halves_of_upper (upper : UInt32) (h : upper.toNat < 65536) :
    (upper >>> 8).toUInt8.toNat * 256 + upper.toUInt8.toNat = upper.toNat := by
  have hhigh : (upper >>> 8).toUInt8.toNat = upper.toNat / 256 := by
    simp [Nat.shiftRight_eq_div_pow]
    omega
  rw [hhigh, UInt32.toNat_toUInt8]
  exact Nat.div_add_mod' _ _

/-- The rows from an offset on hold the bytes from there on, whatever upper half the reader has,
if it is the one of the last row. -/
theorem ihexRows_reads {base : Nat} {header payload : List UInt8} (hheader : header.length = 128)
    (fits : base + 128 + payload.length ≤ 2 ^ 32) (fuel : Nat) (address : UInt32)
    {currentUpper : UInt32} (offset upper : Nat) (enough : 128 + payload.length - offset ≤ fuel)
    (at_offset : offset < 128 + payload.length → address.toNat = base + offset)
    (same : currentUpper = 0xffffffff ∨ upper = currentUpper.toNat) :
    Reads upper (ihexRows header payload fuel address currentUpper offset ++
      writeIhexRecord 0x01 0 []) (placed (base + offset) ((header ++ payload).drop offset)) := by
  have hend {upper offset : Nat} (h : 128 + payload.length ≤ offset) :
      Reads upper ([] ++ writeIhexRecord 0x01 0 [])
        (placed (base + offset) ((header ++ payload).drop offset)) := by
    obtain ⟨checksum, hchecked, hrecord⟩ := writeIhexRecord_eq 0x01 0 []
    rw [List.drop_of_length_le (by rw [List.length_append, hheader]; exact h), hrecord]
    exact reads_eof hchecked
  induction fuel generalizing address currentUpper offset upper with
  | zero => exact hend (by omega)
  | succ fuel ih =>
    rw [ihexRows]
    dsimp only
    split
    · next hlt =>
      have haddress := at_offset hlt
      generalize hrow : min (128 + payload.length - offset) ihexRowSize = rowLen
      have hrowLen : 0 < rowLen ∧ rowLen ≤ 16 ∧ offset + rowLen ≤ 128 + payload.length := by
        unfold ihexRowSize at hrow
        omega
      have hupper : (address >>> 16).toNat = address.toNat / 65536 := by
        simp [Nat.shiftRight_eq_div_pow]
      have hlow : address.toUInt16.toNat = address.toNat % 65536 := UInt32.toNat_toUInt16 address
      -- what follows this row
      have hrest := ih (address + UInt32.ofNat rowLen) (offset + rowLen) (address >>> 16).toNat
        (by omega)
        (fun h => by
          rw [UInt32.toNat_add, UInt32.toNat_ofNat', haddress]
          omega) (.inr rfl)
      -- this row
      obtain ⟨checksum, hchecked, hrecord⟩ := writeIhexRecord_eq 0x00 address.toUInt16
        (ihexRow header payload offset rowLen)
      have hlength : (ihexRow header payload offset rowLen).length = rowLen := by
        simp [ihexRow]
      have hdata := hrest.data (by omega) hchecked
      have hat : (address >>> 16).toNat * 65536 + address.toUInt16.toNat = base + offset := by
        omega
      rw [hat, ihexRow_eq hheader payload hrowLen.2.2, ← placed_drop base
        (by rw [List.length_append, hheader]; exact hrowLen.2.2),
        ← ihexRow_eq hheader payload hrowLen.2.2] at hdata
      rw [List.append_assoc, List.append_assoc, hrecord, List.append_assoc, List.singleton_append]
      split
      · -- the record of type 04 that sets this row's upper half
        obtain ⟨checksum', hchecked', hrecord'⟩ := writeIhexRecord_eq 0x04 0
          [(address >>> 16 >>> 8).toUInt8, (address >>> 16).toUInt8]
        have hhalves := halves_of_upper (address >>> 16) (by
          have hlt := address.toNat_lt
          omega)
        rw [hrecord', List.append_assoc, List.singleton_append]
        exact Reads.extended (by rw [hhalves]; exact hdata) hchecked'
      · next heq =>
        have hcurrent : address >>> 16 = currentUpper := not_not.mp heq
        have hsame : upper = (address >>> 16).toNat := by
          rcases same with h | h
          · have htop := congrArg UInt32.toNat (hcurrent.trans h)
            rw [hupper] at htop
            have hlt := address.toNat_lt
            have h32 : (0xffffffff : UInt32).toNat = 4294967295 := rfl
            omega
          · rw [h, hcurrent]
        rw [List.nil_append, hsame]
        exact hdata
    · exact hend (by omega)

/-- The text is read as header and payload at consecutive addresses from the base. -/
theorem ihex_round_trip (base : UInt32) (header payload : List UInt8)
    (hheader : header.length = 128) (fits : base.toNat + 128 + payload.length ≤ 2 ^ 32) :
    decode (writeComponentIhex base header payload) =
      some (placed base.toNat (header ++ payload)) := by
  have hreads := ihexRows_reads hheader fits (128 + payload.length) base 0 0 (by omega) (fun _ => rfl)
    (.inl rfl)
  exact hreads.decode

/-- A payload of one byte behind a header, over a 64 KiB boundary. -/
theorem seam_round_trip :
    decode (writeComponentIhex 0x1fff8 (List.replicate 128 0xaa) [0x55]) =
      some (placed 0x1fff8 (List.replicate 128 0xaa ++ [0x55])) :=
  ihex_round_trip 0x1fff8 (List.replicate 128 0xaa) [0x55] List.length_replicate (by decide)

end Rtbus.Host
