import Rtbus.Base.Scanf
import Rtbus.Host.Hex
import Rtbus.Host.Header

/-!
# The symbols of the linker map

`read_symbols_from_map` reads the linker map piece by piece, a piece being a line or 255 bytes of a
longer one, and takes an address and a name from the pieces that begin with them. `set_symbol` keeps
the addresses of ten names; a name that comes again replaces the address. `main` packs the payload
for what is found.

`Defines` is the grammar of a line that defines a symbol, and `LastDefinition` says which address is
the last one. The packer packs exactly for the last definitions (`packed_from_map`).
-/

namespace Rtbus.Host

open Rtbus.Scanf Rtbus.Decimal

/-- The symbols of the linker script that the packer knows. -/
inductive Symbol
  | slotStart
  | flashStart
  | entry
  | dataLoad
  | dataStart
  | dataEnd
  | bssStart
  | bssEnd
  | ramStart
  | ramEnd
  deriving DecidableEq

/-- `"__module_"`. -/
def modulePrefix : List UInt8 := [95, 95, 109, 111, 100, 117, 108, 101, 95]

/-- What follows it: `"slot_start"`, `"flash_start"`, `"entry"`, `"data_load"`, `"data_start"`,
`"data_end"`, `"bss_start"`, `"bss_end"`, `"ram_start"` and `"ram_end"`. -/
def Symbol.suffix : Symbol → List UInt8
  | slotStart => [115, 108, 111, 116, 95, 115, 116, 97, 114, 116]
  | flashStart => [102, 108, 97, 115, 104, 95, 115, 116, 97, 114, 116]
  | entry => [101, 110, 116, 114, 121]
  | dataLoad => [100, 97, 116, 97, 95, 108, 111, 97, 100]
  | dataStart => [100, 97, 116, 97, 95, 115, 116, 97, 114, 116]
  | dataEnd => [100, 97, 116, 97, 95, 101, 110, 100]
  | bssStart => [98, 115, 115, 95, 115, 116, 97, 114, 116]
  | bssEnd => [98, 115, 115, 95, 101, 110, 100]
  | ramStart => [114, 97, 109, 95, 115, 116, 97, 114, 116]
  | ramEnd => [114, 97, 109, 95, 101, 110, 100]

/-- The name of a symbol in the map. -/
def Symbol.name (s : Symbol) : List UInt8 := modulePrefix ++ s.suffix

/-- The symbols in the order in which `set_symbol` compares their names. -/
def Symbol.all : List Symbol :=
  [slotStart, flashStart, entry, dataLoad, dataStart, dataEnd, bssStart, bssEnd, ramStart, ramEnd]

namespace ApplicationSymbols

/-- `memset(symbols, 0, sizeof(*symbols))`. -/
def zeroed : ApplicationSymbols := ⟨0, 0, 0, 0, 0, 0, 0, 0, 0, 0⟩

/-- The field of a symbol. -/
def get (symbols : ApplicationSymbols) : Symbol → UInt32
  | .slotStart => symbols.slotStart
  | .flashStart => symbols.flashStart
  | .entry => symbols.entry
  | .dataLoad => symbols.dataLoad
  | .dataStart => symbols.dataStart
  | .dataEnd => symbols.dataEnd
  | .bssStart => symbols.bssStart
  | .bssEnd => symbols.bssEnd
  | .ramStart => symbols.ramStart
  | .ramEnd => symbols.ramEnd

/-- The field of a symbol changed. -/
def set (symbols : ApplicationSymbols) (address : UInt32) : Symbol → ApplicationSymbols
  | .slotStart => { symbols with slotStart := address }
  | .flashStart => { symbols with flashStart := address }
  | .entry => { symbols with entry := address }
  | .dataLoad => { symbols with dataLoad := address }
  | .dataStart => { symbols with dataStart := address }
  | .dataEnd => { symbols with dataEnd := address }
  | .bssStart => { symbols with bssStart := address }
  | .bssEnd => { symbols with bssEnd := address }
  | .ramStart => { symbols with ramStart := address }
  | .ramEnd => { symbols with ramEnd := address }

end ApplicationSymbols

/-- `set_symbol`. -/
def setSymbol (symbols : ApplicationSymbols) (name : List UInt8) (address : UInt32) :
    ApplicationSymbols :=
  match Symbol.all.find? (·.name == name) with
  | some s => symbols.set address s
  | none => symbols

/-- `sscanf(line, " %lx %127s", &address, name)`, where it converts both. -/
def scanLine (libc : Libc) (line : List UInt8) : Option (Nat × List UInt8) :=
  match scanHex libc (line.takeWhile (· != 0)) with
  | some (address, rest) => (scanWord 127 rest).map (address, ·)
  | none => none

/-- A turn of the loop of `read_symbols_from_map`. -/
def readLine (libc : Libc) (symbols : ApplicationSymbols) (line : List UInt8) : ApplicationSymbols :=
  match scanLine libc line with
  | some (address, name) => setSymbol symbols name (UInt32.ofNat address)
  | none => symbols

/-- `read_symbols_from_map` of a file with this text; `sizeof(line)` is 256. -/
def readSymbolsFromMap (libc : Libc) (text : List UInt8) : ApplicationSymbols :=
  (pieces 255 text).foldl (readLine libc) .zeroed

/-- A digit of `%x`. -/
def hexLow (d : Nat) : UInt8 := UInt8.ofNat (if d < 10 then 48 + d else 87 + d)

/-- `%08x`. -/
def hex8 (value : UInt32) : List UInt8 :=
  let n := value.toNat
  [hexLow (n / 268435456), hexLow (n / 16777216 % 16), hexLow (n / 1048576 % 16),
    hexLow (n / 65536 % 16), hexLow (n / 4096 % 16), hexLow (n / 256 % 16), hexLow (n / 16 % 16),
    hexLow (n % 16)]

/-- `write_slot_address`. -/
def writeSlotAddress (slotStart : UInt32) : List UInt8 := [48, 120] ++ hex8 slotStart ++ [10]

/-- The files that `main` writes: the payload, the component, its Intel HEX, and the address of the
slot. -/
structure PackedFiles where
  payloadOut : List UInt8
  signedBin : List UInt8
  signedHex : List UInt8
  slotTxt : List UInt8

/-- What they hold for symbols with this RAM size. -/
def packedFiles (symbols : ApplicationSymbols) (name version : CString) (ramSize : UInt32)
    (payload : List UInt8) : PackedFiles :=
  let header := buildHeader symbols name version ramSize (UInt32.ofNat payload.length)
    (crc32Update 0 payload)
  { payloadOut := payload
    signedBin := componentFile header payload
    signedHex := writeComponentIhex symbols.slotStart header payload
    slotTxt := writeSlotAddress symbols.slotStart }

/-- `main`, from the text of the map on. -/
def packMap (libc : Libc) (map : List UInt8) (name version : CString) (payload : List UInt8) :
    Option PackedFiles :=
  let symbols := readSymbolsFromMap libc map
  (validateSymbols symbols).map fun ramSize => packedFiles symbols name version ramSize payload

/-! ## The grammar of a definition -/

/-- A line defines a symbol: it has an address as `%lx` takes it and the name, with blanks between
them or none, and its text ends there or a blank is next. -/
def Defines (libc : Libc) (line : List UInt8) (s : Symbol) (v : Nat) : Prop :=
  ∃ number gap rest, line.takeWhile (· != 0) = number ++ (gap ++ (s.name ++ rest)) ∧
    Spells libc number v ∧ (∀ c ∈ gap, isSpace c = true) ∧ Ends rest

/-- The address that the last line to define a symbol gives it, or 0. -/
inductive LastDefinition (libc : Libc) (s : Symbol) : List (List UInt8) → UInt32 → Prop
  | none : LastDefinition libc s [] 0
  | defined {lines : List (List UInt8)} {line : List UInt8} {v : Nat} (h : Defines libc line s v) :
      LastDefinition libc s (lines ++ [line]) (UInt32.ofNat v)
  | other {lines : List (List UInt8)} {line : List UInt8} {address : UInt32}
      (last : LastDefinition libc s lines address) (h : ∀ v, ¬ Defines libc line s v) :
      LastDefinition libc s (lines ++ [line]) address

section Names

/-- The names of the symbols are short words. -/
theorem name_solid (s : Symbol) :
    s.name ≠ [] ∧ s.name.length < 127 ∧ (∀ c ∈ s.name, isSpace c = false) ∧
      s.name.getLast? ≠ some 10 := by
  cases s <;> decide +kernel

/-- Each begins with an underscore. -/
theorem name_head (s : Symbol) (rest : List UInt8) : (s.name ++ rest).head? = some 95 := rfl

/-- The names are distinct. -/
theorem find_name (s : Symbol) : Symbol.all.find? (·.name == s.name) = some s := by
  cases s <;> decide +kernel

/-- Setting one symbol leaves the others. -/
theorem get_set (symbols : ApplicationSymbols) (address : UInt32) (s t : Symbol) :
    (symbols.set address t).get s = if t = s then address else symbols.get s := by
  cases t <;> cases s <;> rfl

/-- The fields determine the symbols. -/
theorem symbols_ext {symbols symbols' : ApplicationSymbols}
    (h : ∀ s, symbols.get s = symbols'.get s) : symbols = symbols' := by
  obtain ⟨_, _, _, _, _, _, _, _, _, _⟩ := symbols
  obtain ⟨_, _, _, _, _, _, _, _, _, _⟩ := symbols'
  obtain rfl := h .slotStart
  obtain rfl := h .flashStart
  obtain rfl := h .entry
  obtain rfl := h .dataLoad
  obtain rfl := h .dataStart
  obtain rfl := h .dataEnd
  obtain rfl := h .bssStart
  obtain rfl := h .bssEnd
  obtain rfl := h .ramStart
  obtain rfl := h .ramEnd
  rfl

/-- `set_symbol` sets the field whose name it is given, and no other. -/
theorem get_setSymbol (symbols : ApplicationSymbols) (name : List UInt8) (address : UInt32)
    (s : Symbol) :
    (setSymbol symbols name address).get s = if name = s.name then address else symbols.get s := by
  unfold setSymbol
  by_cases hname : name = s.name
  · rw [hname, find_name, if_pos rfl]
    dsimp only
    rw [get_set, if_pos rfl]
  · rw [if_neg hname]
    cases hfound : Symbol.all.find? (·.name == name) with
    | none => rfl
    | some t =>
      have ht := List.find?_some hfound
      have hne : t ≠ s := fun h => hname (by rw [← eq_of_beq ht, h])
      dsimp only
      rw [get_set, if_neg hne]

end Names

section Lines

variable {libc : Libc} {v : Nat} {line : List UInt8} {s : Symbol} {symbols : ApplicationSymbols}

/-- A blank is no digit and no radix. -/
theorem isSpace_frame {c : UInt8} (h : isSpace c = true) : isHex c = false ∧ c ≠ 120 ∧ c ≠ 88 := by
  have hall : ∀ n < 256, isSpace (UInt8.ofNat n) = true → isHex (UInt8.ofNat n) = false ∧
      UInt8.ofNat n ≠ 120 ∧ UInt8.ofNat n ≠ 88 := by
    decide +kernel
  have hc := hall c.toNat c.toNat_lt
  rw [UInt8.ofNat_toNat] at hc
  exact hc h

/-- `sscanf` finds the name of a symbol in exactly the lines that define it. -/
theorem scanLine_iff : scanLine libc line = some (v, s.name) ↔ Defines libc line s v := by
  obtain ⟨nonempty, short, solid, _⟩ := name_solid s
  unfold scanLine
  constructor
  · intro h
    split at h
    · rename_i address rest hnumber
      obtain ⟨word, hword, heq⟩ := Option.map_eq_some_iff.mp h
      cases heq
      obtain ⟨number, htext, spells⟩ := spells_of_scanHex hnumber
      obtain ⟨gap, behind, rfl, hgap, ends⟩ := (scanWord_iff nonempty short solid).mp hword
      exact ⟨number, gap, behind, htext, spells, hgap, ends⟩
    · cases h
  · rintro ⟨number, gap, rest, htext, spells, hgap, ends⟩
    have hstop : ∀ c ∈ (gap ++ (s.name ++ rest)).head?, isHex c = false ∧ c ≠ 120 ∧ c ≠ 88 := by
      intro c hc
      cases gap with
      | nil =>
        rw [List.nil_append, name_head] at hc
        cases hc
        decide
      | cons d gap =>
        cases hc
        exact isSpace_frame (hgap _ List.mem_cons_self)
    rw [htext, scanHex_of_spells spells hstop]
    dsimp only
    rw [(scanWord_iff nonempty short solid).mpr ⟨gap, rest, rfl, hgap, ends⟩]
    rfl

/-- A line gives an address to the symbol that it defines. -/
theorem get_readLine_of_defines (h : Defines libc line s v) :
    (readLine libc symbols line).get s = UInt32.ofNat v := by
  unfold readLine
  rw [scanLine_iff.mpr h]
  dsimp only
  rw [get_setSymbol, if_pos rfl]

/-- And to no other. -/
theorem get_readLine_of_other (h : ∀ v, ¬ Defines libc line s v) :
    (readLine libc symbols line).get s = symbols.get s := by
  unfold readLine
  split
  · rename_i address name hline
    have hname : name ≠ s.name := fun hname => h address (scanLine_iff.mp (hname ▸ hline))
    rw [get_setSymbol, if_neg hname]
  · rfl

/-- What comes behind a NUL is not in the C string. -/
theorem takeWhile_newline (hzero : 0 ∈ line) :
    (line ++ [10]).takeWhile (· != 0) = line.takeWhile (· != 0) := by
  rw [List.takeWhile_append, if_neg]
  intro hlength
  have hself : line.takeWhile (· != 0) = line := (List.takeWhile_prefix _).eq_of_length hlength
  cases List.takeWhile_eq_self_iff.mp hself 0 hzero

/-- A name at the end of a line does not end with the line. -/
theorem ends_of_newline {before number gap rest : List UInt8} (ends : Ends rest)
    (h : before ++ [10] = number ++ (gap ++ (s.name ++ rest))) :
    ∃ rest', before = number ++ (gap ++ (s.name ++ rest')) ∧ Ends rest' := by
  obtain ⟨nonempty, _, _, hlast⟩ := name_solid s
  rcases List.eq_nil_or_concat rest with rfl | ⟨more, c, rfl⟩
  · have hend := congrArg List.getLast? h
    rw [List.append_nil, ← List.append_assoc, List.getLast?_append, List.getLast?_append,
      List.getLast?_singleton] at hend
    obtain ⟨c, hc⟩ := Option.isSome_iff_exists.mp (List.getLast?_isSome.mpr nonempty)
    rw [hc] at hend hlast
    exact absurd hend.symm hlast
  · have h' : before ++ [10] = (number ++ (gap ++ (s.name ++ more))) ++ [c] := by
      rw [h, List.concat_eq_append]
      simp only [List.append_assoc]
    obtain ⟨rfl, _⟩ := List.append_inj' h' rfl
    refine ⟨more, rfl, fun d hd => ends d ?_⟩
    cases more with
    | nil => cases hd
    | cons e more =>
      cases hd
      rfl

/-- The end of a line is a blank like any other. -/
theorem defines_newline : Defines libc (line ++ [10]) s v ↔ Defines libc line s v := by
  unfold Defines
  by_cases hzero : 0 ∈ line
  · rw [takeWhile_newline hzero]
  · have hall : ∀ c ∈ line, (c != 0) = true := fun c hc =>
      bne_iff_ne.mpr fun h => hzero (h ▸ hc)
    rw [List.takeWhile_append_of_pos hall, List.takeWhile_eq_self_iff.mpr hall]
    show (∃ number gap rest, line ++ [10] = _ ∧ _) ↔ _
    constructor
    · rintro ⟨number, gap, rest, htext, spells, hgap, ends⟩
      obtain ⟨rest', hline, ends'⟩ := ends_of_newline ends htext
      exact ⟨number, gap, rest', hline, spells, hgap, ends'⟩
    · rintro ⟨number, gap, rest, rfl, spells, hgap, ends⟩
      refine ⟨number, gap, rest ++ [10], by simp only [List.append_assoc], spells, hgap,
        fun c hc => ?_⟩
      cases rest with
      | nil =>
        cases hc
        rfl
      | cons d more => exact ends c hc

end Lines

section Text

variable {libc : Libc} {lines : List (List UInt8)} {s : Symbol} {address : UInt32}
  {symbols : ApplicationSymbols}

/-- The loop ends with the last definitions. -/
theorem lastDefinition_foldl (libc : Libc) (s : Symbol) (lines : List (List UInt8)) :
    LastDefinition libc s lines ((lines.foldl (readLine libc) .zeroed).get s) := by
  induction lines using List.reverseRecOn with
  | nil =>
    have hzero : ApplicationSymbols.zeroed.get s = 0 := by cases s <;> rfl
    rw [List.foldl_nil, hzero]
    exact .none
  | append_singleton lines line ih =>
    rw [List.foldl_append, List.foldl_cons, List.foldl_nil]
    by_cases h : ∃ v, Defines libc line s v
    · obtain ⟨v, h⟩ := h
      rw [get_readLine_of_defines h]
      exact .defined h
    · have h : ∀ v, ¬ Defines libc line s v := not_exists.mp h
      rw [get_readLine_of_other h]
      exact .other ih h

/-- The last definition is what reading the lines leaves. -/
theorem LastDefinition.eq_foldl (last : LastDefinition libc s lines address) :
    (lines.foldl (readLine libc) .zeroed).get s = address := by
  induction last with
  | none => cases s <;> rfl
  | defined h =>
    rw [List.foldl_append, List.foldl_cons, List.foldl_nil]
    exact get_readLine_of_defines h
  | other _ h ih =>
    rw [List.foldl_append, List.foldl_cons, List.foldl_nil, get_readLine_of_other h]
    exact ih

/-- A newline behind a line is a blank, and changes no definition. -/
theorem LastDefinition.newlines (last : LastDefinition libc s lines address) :
    LastDefinition libc s (lines.map (· ++ [10])) address := by
  induction last with
  | none => exact .none
  | defined h =>
    rw [List.map_append]
    exact .defined (defines_newline.mpr h)
  | other _ h ih =>
    rw [List.map_append]
    exact .other ih fun v => defines_newline.not.mpr (h v)

/-- Reading lines gives every symbol its last definition, or zero. -/
theorem foldl_iff (libc : Libc) (lines : List (List UInt8)) (symbols : ApplicationSymbols) :
    lines.foldl (readLine libc) .zeroed = symbols ↔
      ∀ s, LastDefinition libc s lines (symbols.get s) := by
  constructor
  · rintro rfl s
    exact lastDefinition_foldl libc s lines
  · intro h
    exact symbols_ext fun s => (h s).eq_foldl

/-- Reading the lines with their newlines is reading the lines. -/
theorem foldl_newlines (libc : Libc) (lines : List (List UInt8)) :
    (lines.map (· ++ [10])).foldl (readLine libc) .zeroed =
      lines.foldl (readLine libc) .zeroed :=
  (foldl_iff libc _ _).mpr fun s => (lastDefinition_foldl libc s lines).newlines

/-- The files are those for the symbols that were read. -/
theorem packMap_iff {map : List UInt8} {name version : CString} {payload : List UInt8}
    {files : PackedFiles} (h : ∀ symbols, readSymbolsFromMap libc map = symbols ↔
      ∀ s, LastDefinition libc s lines (symbols.get s)) :
    packMap libc map name version payload = some files ↔
      ∃ symbols ramSize, (∀ s, LastDefinition libc s lines (symbols.get s)) ∧
        validateSymbols symbols = some ramSize ∧
        files = packedFiles symbols name version ramSize payload := by
  unfold packMap
  dsimp only
  rw [Option.map_eq_some_iff]
  constructor
  · rintro ⟨ramSize, valid, hfiles⟩
    exact ⟨_, ramSize, (h _).mp rfl, valid, hfiles.symm⟩
  · rintro ⟨symbols, ramSize, last, valid, hfiles⟩
    rw [(h symbols).mpr last]
    exact ⟨ramSize, valid, hfiles.symm⟩

end Text

section Files

variable {libc : Libc}

/-- A low hexadecimal digit is read as its value. -/
theorem hexValue_hexLow {d : Nat} (h : d < 16) : IntelHex.hexValue (hexLow d) = some d := by
  have hall : ∀ d : Fin 16, IntelHex.hexValue (hexLow d) = some d.val := by decide
  exact hall ⟨d, h⟩

/-- It is a hexadecimal digit. -/
theorem isHex_hexLow {d : Nat} (h : d < 16) : isHex (hexLow d) = true := by
  unfold isHex
  rw [hexValue_hexLow h]
  rfl

/-- So are all eight of an address. -/
theorem isHex_hex8 (value : UInt32) : ∀ c ∈ hex8 value, isHex c = true := by
  have hlt := value.toNat_lt
  simp only [hex8, List.forall_mem_cons]
  refine ⟨isHex_hexLow (by omega), isHex_hexLow (by omega), isHex_hexLow (by omega),
    isHex_hexLow (by omega), isHex_hexLow (by omega), isHex_hexLow (by omega),
    isHex_hexLow (by omega), isHex_hexLow (by omega), fun c hc => by cases hc⟩

/-- The eight digits stand for the address. -/
theorem hexNumber_hex8 (value : UInt32) : hexNumber (hex8 value) = value.toNat := by
  have hlt := value.toNat_lt
  simp (disch := omega) only [hex8, hexNumber, List.foldl_cons, List.foldl_nil, hexValue_hexLow,
    Option.getD_some]
  omega

/-- An address is read back, if `unsigned long` holds it. -/
theorem spells_hex8 (wide : 32 ≤ libc.bits) (blanks : Nat) (value : UInt32) :
    Spells libc (List.replicate blanks 32 ++ ([48, 120] ++ hex8 value)) value.toNat := by
  refine ⟨List.replicate blanks 32, [], [48, 120], hex8 value, rfl, fun c hc => ?_, .inl rfl,
    .inr (.inl rfl), .inl (List.cons_ne_nil _ _), isHex_hex8 value, ?_⟩
  · rw [List.eq_of_mem_replicate hc]
    rfl
  · have hlt : value.toNat < 2 ^ libc.bits :=
      Nat.lt_of_lt_of_le value.toNat_lt (Nat.pow_le_pow_right (by decide) wide)
    have hsign : (([] : List UInt8) == [45]) = false := rfl
    rw [hexNumber_hex8, hsign]
    unfold converted
    rw [if_neg (Nat.not_le.mpr hlt), if_neg Bool.false_ne_true]

/-- The files agree: the component is a header and the payload, and its Intel HEX places it at the
address in the file of the slot. -/
structure Agree (libc : Libc) (files : PackedFiles) : Prop where
  payload : files.signedBin.drop 128 = files.payloadOut
  slot : ∃ slot, scanHex libc files.slotTxt = some (slot, [10]) ∧
    (slot + files.signedBin.length ≤ 2 ^ 32 →
      IntelHex.decode files.signedHex = some (IntelHex.placed slot files.signedBin))

/-- The files of one packing fit together. -/
theorem packedFiles_agree (wide : 32 ≤ libc.bits) (symbols : ApplicationSymbols)
    (name version : CString) (ramSize : UInt32) (payload : List UInt8) :
    Agree libc (packedFiles symbols name version ramSize payload) := by
  have hheader := buildHeader_length symbols name version ramSize (UInt32.ofNat payload.length)
    (crc32Update 0 payload)
  refine ⟨List.drop_left' hheader, symbols.slotStart.toNat, ?_, fun fits => ?_⟩
  · exact scanHex_of_spells (spells_hex8 wide 0 symbols.slotStart) fun c hc => by
      cases hc
      decide
  · refine ihex_round_trip symbols.slotStart _ payload hheader ?_
    unfold packedFiles componentFile at fits
    dsimp only at fits
    rw [List.length_append, hheader] at fits
    omega

end Files

/-- The packer writes files exactly if `validate_symbols` takes the last definitions in the map, and
they are the files for these: whatever the map is, the definitions in its pieces of 255 bytes, and
if all of its lines are shorter, those in its lines. The files agree with each other. -/
theorem packed_from_map (libc : Libc) (wide : 32 ≤ libc.bits) (map : List UInt8)
    (name version : CString) (payload : List UInt8) (files : PackedFiles) :
    (packMap libc map name version payload = some files ↔
      ∃ symbols ramSize, (∀ s, LastDefinition libc s (pieces 255 map) (symbols.get s)) ∧
        validateSymbols symbols = some ramSize ∧
        files = packedFiles symbols name version ramSize payload) ∧
    (∀ lines, map = Lines.frame 10 lines → (∀ line ∈ lines, line.length < 255 ∧ 10 ∉ line) →
      (packMap libc map name version payload = some files ↔
        ∃ symbols ramSize, (∀ s, LastDefinition libc s lines (symbols.get s)) ∧
          validateSymbols symbols = some ramSize ∧
          files = packedFiles symbols name version ramSize payload)) ∧
    (packMap libc map name version payload = some files → Agree libc files) := by
  have hpieces : packMap libc map name version payload = some files ↔
      ∃ symbols ramSize, (∀ s, LastDefinition libc s (pieces 255 map) (symbols.get s)) ∧
        validateSymbols symbols = some ramSize ∧
        files = packedFiles symbols name version ramSize payload := by
    refine packMap_iff fun symbols => ?_
    unfold readSymbolsFromMap
    exact foldl_iff libc _ symbols
  refine ⟨hpieces, ?_, fun h => ?_⟩
  · rintro lines rfl short
    refine packMap_iff fun symbols => ?_
    unfold readSymbolsFromMap
    rw [pieces_frame short, foldl_newlines]
    exact foldl_iff libc lines symbols
  · obtain ⟨symbols, ramSize, _, _, hfiles⟩ := hpieces.mp h
    rw [hfiles]
    exact packedFiles_agree wide symbols name version ramSize payload

/-- A line as the linker writes it. -/
def mapLine (address : UInt32) (s : Symbol) : List UInt8 :=
  List.replicate 16 32 ++ ([48, 120] ++ hex8 address) ++ (List.replicate 16 32 ++ s.name)

/-- The map of an application for the RAK4631, with an address of its entry that is replaced. -/
def ldMap : List (List UInt8) :=
  [mapLine 0xec080 .entry, mapLine 0x20035000 .dataStart, mapLine 0x20035010 .dataEnd,
    mapLine 0xec100 .dataLoad, mapLine 0x20035010 .bssStart, mapLine 0x20035100 .bssEnd,
    mapLine 0xec0c0 .entry, mapLine 0xec000 .slotStart, mapLine 0xec080 .flashStart, [],
    mapLine 0x20035000 .ramStart, mapLine 0x20037000 .ramEnd]

/-- The symbols in it. -/
def ldSymbols : ApplicationSymbols :=
  ⟨0xec000, 0xec080, 0xec0c0, 0xec100, 0x20035000, 0x20035010, 0x20035010, 0x20035100, 0x20035000,
    0x20037000⟩

/-- glibc on a host of 64 bits. -/
def glibc64 : Libc := ⟨64, true⟩

theorem ldMap_symbols : ldMap.foldl (readLine glibc64) .zeroed = ldSymbols :=
  symbols_ext fun s => by cases s <;> decide +kernel

/-- The packer takes the later address of the entry. -/
theorem ldMap_packed :
    packMap glibc64 (Lines.frame 10 ldMap) ⟨[97, 98], by decide⟩ ⟨[49], by decide⟩ [1, 2, 3] =
      some (packedFiles ldSymbols ⟨[97, 98], by decide⟩ ⟨[49], by decide⟩ 0x2000 [1, 2, 3]) :=
  have short : ∀ line ∈ ldMap, line.length < 255 ∧ 10 ∉ line := by decide +kernel
  ((packed_from_map glibc64 (by decide) _ _ _ _ _).2.1 ldMap rfl short).mpr
    ⟨ldSymbols, 0x2000, (foldl_iff glibc64 ldMap ldSymbols).mp ldMap_symbols, by decide, rfl⟩

end Rtbus.Host
