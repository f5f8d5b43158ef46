import Rtbus.Base.Decimal
import Rtbus.Ymodem.Packet

/-!
# Block 0

Block 0 names the file and says its size in text. The host prints both into 128 bytes, and what does
not fit is cut off without a word: the receiver then reads a smaller size, or none
(`file_size_read_back_iff`).

The receiver looks for the end of the name in the bytes it received, but reads the number until a
byte stops it. When none does, it reads on into what an earlier packet has left in the buffer, or
behind the buffer (`metadata_confined_iff`).
-/

namespace Rtbus.Ymodem

open Decimal

/-- `base_name`: what follows the last slash or backslash. -/
def baseName (path : List UInt8) : List UInt8 :=
  (path.reverse.takeWhile fun c => c != 0x2f && c != 0x5c).reverse

/-- What the host puts into the payload of block 0: the name, a zero and the size, as `snprintf`
writes them into `YMODEM_BLOCK_128` bytes that were zero before. -/
def metadataBlock (path : List UInt8) (size : Nat) : List UInt8 :=
  let text := (baseName path ++ 0 :: write size).take (block128 - 1)
  text ++ List.replicate (block128 - text.length) 0

/-- The first byte of `block` that is zero, or `len`. -/
def nameEnd (block : List UInt8) (len : Nat) : Nat :=
  ((block.take len).takeWhile (· != 0)).length

/-- `ymodem_parse_file_size`. `block` is the memory from the address it is given, of which the first
`len` bytes were received. -/
def ymodemParseFileSize (block : List UInt8) (len : Nat) : Nat :=
  let pos := nameEnd block len
  if len ≤ pos ∨ len ≤ pos + 1 ∨ block.getD (pos + 1) 0 = 0 then 0
  else strtoul (block.drop (pos + 1))

/-- How many bytes of `block` it looks at. -/
def parseExtent (block : List UInt8) (len : Nat) : Nat :=
  let pos := nameEnd block len
  if len ≤ pos then len
  else if len ≤ pos + 1 then pos + 1
  else if block.getD (pos + 1) 0 = 0 then pos + 2
  else pos + 1 + strtoulExtent (block.drop (pos + 1))

section Name

variable {name rest : List UInt8}

/-- The name ends at its zero. -/
theorem nameEnd_of_string (string : 0 ∉ name) {len : Nat} (h : name.length < len) :
    nameEnd (name ++ 0 :: rest) len = name.length := by
  have hall : ∀ c ∈ name, (c != 0) = true := fun c hc => bne_iff_ne.mpr fun h0 => string (h0 ▸ hc)
  obtain ⟨k, hk⟩ : ∃ k, len - name.length = k + 1 := ⟨len - name.length - 1, by omega⟩
  unfold nameEnd
  rw [List.take_append, List.take_of_length_le (by omega), hk, List.take_succ_cons,
    List.takeWhile_append_of_pos hall, List.takeWhile_cons_of_neg (by decide), List.append_nil]

/-- The size that is read behind a name. -/
theorem parse_of_name (string : 0 ∉ name) {len : Nat} (h : name.length + 1 < len) :
    ymodemParseFileSize (name ++ 0 :: rest) len = if rest.getD 0 0 = 0 then 0 else strtoul rest := by
  unfold ymodemParseFileSize
  rw [nameEnd_of_string string (by omega)]
  have hget : (name ++ 0 :: rest).getD (name.length + 1) 0 = rest.getD 0 0 := by
    rw [List.getD_eq_getElem?_getD, List.getElem?_append_right (Nat.le_succ _),
      Nat.add_sub_cancel_left (m := 1), List.getElem?_cons_succ, List.getD_eq_getElem?_getD]
  have hdrop : (name ++ 0 :: rest).drop (name.length + 1) = rest := by
    rw [List.drop_append, List.drop_of_length_le (Nat.le_succ _), Nat.add_sub_cancel_left]
    rfl
  dsimp only
  rw [hget, hdrop]
  by_cases h0 : rest.getD 0 0 = 0
  · rw [if_pos (.inr (.inr h0)), if_pos h0]
  · rw [if_neg (by simp only [h0, or_false]; omega), if_neg h0]

theorem not_mem_baseName {path : List UInt8} (string : 0 ∉ path) : 0 ∉ baseName path := by
  intro h
  exact string (List.mem_reverse.mp
    ((List.takeWhile_prefix _).subset (List.mem_reverse.mp h)))

end Name

section RoundTrip

variable {path : List UInt8} {size : Nat}

/-- What follows the zero of the name in block 0, while there is room for a byte. -/
theorem metadataBlock_eq (path : List UInt8) (size : Nat) (h : (baseName path).length + 1 ≤ 127) :
    ∃ k, metadataBlock path size = baseName path ++ 0 ::
      ((write size).take (126 - (baseName path).length) ++ 0 :: List.replicate k 0) := by
  obtain ⟨k, hk⟩ : ∃ k, 127 - (baseName path).length = k + 1 :=
    ⟨126 - (baseName path).length, by omega⟩
  have htext : (baseName path ++ 0 :: write size).take (block128 - 1) =
      baseName path ++ 0 :: (write size).take (126 - (baseName path).length) := by
    show List.take 127 _ = _
    rw [List.take_append, List.take_of_length_le (by omega), hk, List.take_succ_cons]
    congr 3
    omega
  unfold metadataBlock
  dsimp only
  rw [htext]
  refine ⟨block128 - (baseName path).length - 1 -
    ((write size).take (126 - (baseName path).length)).length - 1, ?_⟩
  rw [← List.replicate_succ, List.append_assoc, List.cons_append]
  congr 4
  simp only [List.length_append, List.length_cons, List.length_take, block128]
  omega

/-- A name that leaves no room for a digit leaves none to be read. -/
theorem parse_of_long_name (string : 0 ∉ path) (long : 126 ≤ (baseName path).length)
    (behind : List UInt8) : ymodemParseFileSize (metadataBlock path size ++ behind) 128 = 0 := by
  have hname := not_mem_baseName string
  rcases Nat.lt_or_ge 126 (baseName path).length with hlong | hfits
  · have htext : (baseName path ++ 0 :: write size).take (block128 - 1) = (baseName path).take 127 := by
      show List.take 127 _ = _
      rw [List.take_append, Nat.sub_eq_zero_of_le hlong, List.take_zero, List.append_nil]
    have hlen : ((baseName path).take 127).length = 127 := by
      rw [List.length_take]
      omega
    have hblock : metadataBlock path size ++ behind = (baseName path).take 127 ++ 0 :: behind := by
      unfold metadataBlock
      dsimp only
      rw [htext, hlen, List.append_assoc]
      rfl
    unfold ymodemParseFileSize
    rw [hblock, nameEnd_of_string (fun h => hname (List.mem_of_mem_take h)) (by omega), hlen]
    exact if_pos (.inr (.inl (by decide)))
  · obtain ⟨k, hk⟩ := metadataBlock_eq path size (by omega)
    rw [hk, List.append_assoc, List.cons_append, parse_of_name hname (by omega),
      Nat.sub_eq_zero_of_le long]
    exact if_pos rfl

/-- What the receiver reads: the number that the digits stand for that were not cut off. -/
theorem parse_metadataBlock (string : 0 ∉ path) (pos : 1 ≤ size) (small : size < 2 ^ 32)
    (h : (baseName path).length < 126) (behind : List UInt8) :
    ymodemParseFileSize (metadataBlock path size ++ behind) 128 =
      value ((write size).take (126 - (baseName path).length)) := by
  obtain ⟨k, hk⟩ := metadataBlock_eq path size (by omega)
  have hall : ∀ c ∈ (write size).take (126 - (baseName path).length), isDigit c = true :=
    fun c hc => write_isDigit size c (List.mem_of_mem_take hc)
  have hne : (write size).take (126 - (baseName path).length) ≠ [] := by
    intro hnil
    rcases List.take_eq_nil_iff.mp hnil with h0 | h0
    · omega
    · exact write_ne_nil size h0
  have hle : value ((write size).take (126 - (baseName path).length)) ≤ size := by
    rcases Nat.lt_or_ge (126 - (baseName path).length) (write size).length with hcut | hfits
    · exact (value_take_write pos hcut).le
    · rw [List.take_of_length_le hfits, value_write]
  rw [hk, List.append_assoc, List.cons_append, parse_of_name (not_mem_baseName string) (by omega)]
  rw [List.append_assoc, List.cons_append, if_neg, strtoul_digits hne hall (by omega)]
  obtain ⟨c, more, hc⟩ := List.exists_cons_of_ne_nil hne
  have hdigit := hall c (by rw [hc]; exact List.mem_cons_self)
  rw [hc]
  rintro rfl
  cases hdigit

/-- The receiver reads the size that the host has sent exactly when name and size fit in the block. -/
theorem file_size_read_back_iff (path : List UInt8) (string : 0 ∉ path) (size : Nat)
    (pos : 1 ≤ size) (small : size < 2 ^ 32) (behind : List UInt8) :
    ymodemParseFileSize (metadataBlock path size ++ behind) 128 = size ↔
      size < 10 ^ (126 - (baseName path).length) := by
  rcases Nat.lt_or_ge (baseName path).length 126 with hroom | hlong
  · rw [parse_metadataBlock string pos small hroom, ← length_write_le pos]
    rcases Nat.lt_or_ge (126 - (baseName path).length) (write size).length with hcut | hfits
    · exact iff_of_false (value_take_write pos hcut).ne (by omega)
    · rw [List.take_of_length_le hfits, value_write]
      exact iff_of_true rfl hfits
  · rw [parse_of_long_name string hlong, Nat.sub_eq_zero_of_le hlong]
    exact iff_of_false (by omega) (by omega)

theorem length_metadataBlock (path : List UInt8) (size : Nat) :
    (metadataBlock path size).length = block128 := by
  unfold metadataBlock block128
  dsimp only
  rw [List.length_append, List.length_replicate, List.length_take]
  omega

/-- A size that fits is read back, up to the largest number of 32 bits. -/
theorem parse_of_fits (string : 0 ∉ path) (room : (baseName path).length + 1 + (write size).length ≤ 127)
    (behind : List UInt8) :
    ymodemParseFileSize (metadataBlock path size ++ behind) 128 = min size (2 ^ 32 - 1) := by
  have hpos := List.length_pos_of_ne_nil (write_ne_nil size)
  obtain ⟨k, hk⟩ := metadataBlock_eq path size (by omega)
  rw [List.take_of_length_le (by omega)] at hk
  rw [hk, List.append_assoc, List.cons_append, parse_of_name (not_mem_baseName string) (by omega),
    List.append_assoc, List.cons_append, if_neg, strtoul_of_digits (write_ne_nil size)
      (write_isDigit size), value_write]
  obtain ⟨c, more, hc⟩ := List.exists_cons_of_ne_nil (write_ne_nil size)
  have hdigit := write_isDigit size c (by rw [hc]; exact List.mem_cons_self)
  rw [hc]
  rintro rfl
  cases hdigit

/-- A name and a size that fit. -/
theorem small_file_read_back :
    ymodemParseFileSize (metadataBlock [0x61, 0x2e, 0x62] 4096 ++ []) 128 = 4096 :=
  (file_size_read_back_iff [0x61, 0x2e, 0x62] (by decide) 4096 (by decide) (by decide) []).mpr
    (by decide +kernel)

/-- The size of a file whose name has 120 letters is cut to its first six digits. -/
theorem long_name_cuts_size : ¬ ∀ (path : List UInt8) (size : Nat), 0 ∉ path → 1 ≤ size →
    size < 2 ^ 32 → ymodemParseFileSize (metadataBlock path size) 128 = size := by
  intro h
  have hbase : baseName (List.replicate 120 0x61) = List.replicate 120 0x61 := by decide +kernel
  have hlen : (List.replicate 120 (0x61 : UInt8)).length = 120 := List.length_replicate
  have hstring : 0 ∉ List.replicate 120 (0x61 : UInt8) := by decide
  have small : 12345678 < 2 ^ 32 := by decide
  have hparse := parse_metadataBlock hstring (by decide) small (by rw [hbase, hlen]; decide) []
  have hdigits : (write 12345678).take 6 = [0x31, 0x32, 0x33, 0x34, 0x35, 0x36] := by decide +kernel
  rw [List.append_nil, hbase, hlen, hdigits,
    h (List.replicate 120 0x61) 12345678 hstring (by decide) (by decide)] at hparse
  exact absurd hparse (by decide)

end RoundTrip

section Confinement

/-- The static buffer `ymodem_data`, which held `old`, after `memcpy` of a payload. -/
def receiveInto (old payload : List UInt8) : List UInt8 := payload ++ old.drop payload.length

/-- Once the packet has been read, whatever the buffer held before and whatever lies behind it: the
size is the same, and no byte is looked at that was not received. -/
def Confined (header : UInt8) (received : List UInt8) : Prop :=
  ∀ number payload, ymodemReadPacket header received = .ok (number, payload) →
    ∀ old old' behind behind' : List UInt8, old.length = block1024 → old'.length = block1024 →
      ymodemParseFileSize (receiveInto old payload ++ behind) payload.length =
          ymodemParseFileSize (receiveInto old' payload ++ behind') payload.length ∧
        parseExtent (receiveInto old payload ++ behind) payload.length ≤ payload.length

/-- One of the received bytes ends the parsing: there is no byte behind the name, or it is zero, or
a byte stops the number. -/
def EndsInside (payload : List UInt8) : Prop :=
  payload.length ≤ nameEnd payload payload.length + 1 ∨
    payload.getD (nameEnd payload payload.length + 1) 0 = 0 ∨
      afterNumber (payload.drop (nameEnd payload payload.length + 1)) ≠ []

instance (payload : List UInt8) : Decidable (EndsInside payload) := by
  unfold EndsInside
  infer_instance

variable {payload : List UInt8}

theorem nameEnd_append (payload rest : List UInt8) :
    nameEnd (payload ++ rest) payload.length = nameEnd payload payload.length := by
  unfold nameEnd
  rw [List.take_left, List.take_length]

theorem getD_append_left {k : Nat} (h : k < payload.length) (rest : List UInt8) :
    (payload ++ rest).getD k 0 = payload.getD k 0 := by
  rw [List.getD_eq_getElem?_getD, List.getD_eq_getElem?_getD, List.getElem?_append_left h]

theorem drop_append_left {k : Nat} (h : k < payload.length) (rest : List UInt8) :
    (payload ++ rest).drop k = payload.drop k ++ rest :=
  List.drop_append_of_le_length h.le

/-- A block that ends the parsing is parsed alike before anything else. -/
theorem parse_append (h : EndsInside payload) (rest : List UInt8) :
    ymodemParseFileSize (payload ++ rest) payload.length =
      ymodemParseFileSize payload payload.length := by
  unfold ymodemParseFileSize
  dsimp only
  rw [nameEnd_append]
  by_cases hend : payload.length ≤ nameEnd payload payload.length + 1
  · rw [if_pos (.inr (.inl hend)), if_pos (.inr (.inl hend))]
  · have hlt := Nat.not_le.mp hend
    rw [getD_append_left hlt, drop_append_left hlt]
    by_cases h0 : payload.getD (nameEnd payload payload.length + 1) 0 = 0
    · rw [if_pos (.inr (.inr h0)), if_pos (.inr (.inr h0))]
    · rw [strtoul_append ((h.resolve_left hend).resolve_left h0)]

/-- The parser looks at received bytes alone exactly when one of them ends the parsing. -/
theorem parseExtent_le_iff (payload rest : List UInt8) :
    parseExtent (payload ++ rest) payload.length ≤ payload.length ↔ EndsInside payload := by
  unfold parseExtent EndsInside
  dsimp only
  rw [nameEnd_append]
  split
  · exact iff_of_true (le_refl _) (.inl (by omega))
  · split
    · next hend => exact iff_of_true (by omega) (.inl hend)
    · next hend =>
      have hlt := Nat.not_le.mp hend
      rw [getD_append_left hlt, drop_append_left hlt]
      split
      · next h0 => exact iff_of_true hlt (.inr (.inl h0))
      · next h0 =>
        have hdrop := List.length_drop (i := nameEnd payload payload.length + 1) (l := payload)
        cases hstop : afterNumber (payload.drop (nameEnd payload payload.length + 1)) with
        | nil =>
          have hmore := strtoulExtent_append_of_nil hstop rest
          refine iff_of_false (by omega) ?_
          rintro (h | h | h)
          · exact hend h
          · exact h0 h
          · exact h rfl
        | cons c text =>
          have hne : afterNumber (payload.drop (nameEnd payload payload.length + 1)) ≠ [] := by
            rw [hstop]
            exact List.cons_ne_nil _ _
          have hless := strtoulExtent_append hne rest
          exact iff_of_true (by omega) (.inr (.inr (List.cons_ne_nil _ _)))

/-- Parsing a packet that was read depends on its bytes alone exactly when one of them ends it. -/
theorem metadata_confined_iff (header number : UInt8) (received payload : List UInt8)
    (valid : ymodemReadPacket header received = .ok (number, payload)) :
    Confined header received ↔ EndsInside payload := by
  constructor
  · intro h
    have hextent := (h number payload valid (List.replicate block1024 0)
      (List.replicate block1024 0) [] [] List.length_replicate List.length_replicate).2
    unfold receiveInto at hextent
    rw [List.append_assoc] at hextent
    exact (parseExtent_le_iff payload _).mp hextent
  · intro h number' payload' hread old old' behind behind' _ _
    obtain ⟨_, rfl⟩ := Prod.mk.inj (Except.ok.inj (valid.symm.trans hread))
    unfold receiveInto
    rw [List.append_assoc, List.append_assoc, parse_append h, parse_append h]
    exact ⟨rfl, (parseExtent_le_iff payload _).mpr h⟩

/-- What comes behind the header of the block 0 for a file `a` of 128 bytes. -/
def writtenPacket : List UInt8 := (sendPacket soh 0 (metadataBlock [0x61] 128)).drop 1

/-- The zero behind the digits of 128 ends the parsing, and the number is that of the digits. -/
theorem written_size_confined : Confined soh writtenPacket ∧
    ymodemParseFileSize (metadataBlock [0x61] 128) block128 = 128 := by
  refine ⟨(metadata_confined_iff soh 0 writtenPacket (metadataBlock [0x61] 128) ?_).mpr
    (by decide +kernel), by decide +kernel⟩
  have hread := read_sendPacket soh 0 (metadataBlock [0x61] 128) []
    (congrArg some (length_metadataBlock [0x61] 128).symm)
  rwa [List.append_nil] at hread

/-- A payload whose text is digits up to its end. -/
def digitsPayload : List UInt8 := 0x61 :: 0 :: List.replicate 126 0x30

/-- What comes behind the header for this payload. -/
def digitsPacket : List UInt8 := (sendPacket soh 0 digitsPayload).drop 1

/-- The buffer when an earlier packet has left this byte behind the first 128. -/
def staleBuffer (stale : UInt8) : List UInt8 :=
  List.replicate 128 0 ++ stale :: List.replicate 895 0

theorem length_staleBuffer (stale : UInt8) : (staleBuffer stale).length = block1024 := by
  unfold staleBuffer
  rw [List.length_append, List.length_cons, List.length_replicate, List.length_replicate]
  rfl

/-- The size in this packet is 0 or 5, by what the buffer held before. -/
theorem digits_read_on : ymodemReadPacket soh digitsPacket = .ok (0, digitsPayload) ∧
    ¬ Confined soh digitsPacket := by
  have hread : ymodemReadPacket soh digitsPacket = .ok (0, digitsPayload) := by
    have hsent := read_sendPacket soh 0 digitsPayload [] rfl
    rwa [List.append_nil] at hsent
  refine ⟨hread, fun h => ?_⟩
  have hsame := (h 0 digitsPayload hread (staleBuffer 0x30) (staleBuffer 0x35) [] []
    (length_staleBuffer _) (length_staleBuffer _)).1
  have hzero : ymodemParseFileSize (receiveInto (staleBuffer 0x30) digitsPayload)
      digitsPayload.length = 0 := by
    decide +kernel
  have hfive : ymodemParseFileSize (receiveInto (staleBuffer 0x35) digitsPayload)
      digitsPayload.length = 5 := by
    decide +kernel
  rw [List.append_nil, List.append_nil, hzero, hfive] at hsame
  cases hsame

end Confinement

end Rtbus.Ymodem
