import Mathlib.Data.List.TakeWhile
import Rtbus.Cli.Input

/-!
# The commands that a stream of bytes runs

`rtbus_cli_process_byte` collects a line in a buffer of 256 bytes. A byte that finds it full is dropped
and collecting starts again behind it, so the end of a long line is taken for a line of its own. The
line is then read as a C string, which ends at its first zero.

`Accepts` is the grammar of a command line, and `Invoked` what a list of lines must run.
`invoked_iff_clear` says that the code does this exactly when no end of a long line and no line with
a zero in it looks like a command.
-/

namespace Rtbus.Cli

open Rtbus.Serial Rtbus.Lines

variable {H : Type}

/-- `RTBUS_CLI_HEADER`. -/
def cliHeader : List UInt8 := [0x40, 0x52, 0x54, 0x42, 0x55, 0x53, 0x3a]

/-- `'='`. -/
abbrev equalSign : UInt8 := 0x3d

/-- `struct rtbus_cli_command`; `none` is `NULL`. -/
structure Command (H : Type) where
  name : Option (List UInt8)
  handler : Option H

/-- What a C string function sees of some bytes with a zero behind them. -/
def cString (bytes : List UInt8) : List UInt8 := bytes.takeWhile (· != 0)

/-- `rtbus_cli_dispatch_line` on a line that is not empty: the handler that it calls and the argument
that it passes. -/
def dispatchLine (commands : List (Command H)) (line : List UInt8) : Option (H × List UInt8) :=
  if line.take cliHeader.length ≠ cliHeader then none
  else
    let text := cString (line.drop cliHeader.length)
    -- `strchr`, and the zero that is written over the separator
    let commandName := text.takeWhile (· != equalSign)
    let args := (text.dropWhile (· != equalSign)).drop 1
    commands.findSome? fun command =>
      if command.name = some commandName then command.handler.map (·, args) else none

/-- The line buffer below `rtbus_cli_line_len`. History are the calls of handlers. -/
structure CliLine (H : Type) where
  line : List UInt8
  calls : List (H × List UInt8)

/-- `rtbus_cli_process_byte`. -/
def CliLine.processByte (commands : List (Command H)) (s : CliLine H) (byte : UInt8) : CliLine H :=
  if byte = cr ∨ byte = lf then
    if s.line = [] then s
    else { line := [], calls := s.calls ++ (dispatchLine commands s.line).toList }
  else if s.line.length ≥ cliLineMax - 1 then { s with line := [] }
  else { s with line := s.line ++ [byte] }

/-- A stream of bytes, from the first on. -/
def processStream (commands : List (Command H)) (stream : List UInt8) : CliLine H :=
  stream.foldl (CliLine.processByte commands) ⟨[], []⟩

/-! ## The grammar -/

/-- The text is the header, the name of a command, and perhaps `=` and an argument. -/
inductive Matches (commands : List (Command H)) : List UInt8 → H → List UInt8 → Prop
  | plain {command : Command H} {name : List UInt8} {handler : H} (mem : command ∈ commands)
      (hname : command.name = some name) (hhandler : command.handler = some handler) :
      Matches commands (cliHeader ++ name) handler []
  | argument {command : Command H} {name : List UInt8} {handler : H} (mem : command ∈ commands)
      (hname : command.name = some name) (hhandler : command.handler = some handler)
      (argument : List UInt8) :
      Matches commands (cliHeader ++ name ++ equalSign :: argument) handler argument

/-- A line that runs a handler. -/
def Accepts (commands : List (Command H)) (line : List UInt8) (handler : H)
    (argument : List UInt8) : Prop :=
  line.length ≤ 255 ∧ Matches commands line handler argument

/-- The calls are those that the lines ask for, in order. -/
inductive Invoked (commands : List (Command H)) :
    List (List UInt8) → List (H × List UInt8) → Prop
  | nil : Invoked commands [] []
  | call {line : List UInt8} {handler : H} {argument : List UInt8} {lines : List (List UInt8)}
      {calls : List (H × List UInt8)} (accepts : Accepts commands line handler argument)
      (rest : Invoked commands lines calls) :
      Invoked commands (line :: lines) ((handler, argument) :: calls)
  | skip {line : List UInt8} {lines : List (List UInt8)} {calls : List (H × List UInt8)}
      (rejects : ∀ handler argument, ¬ Accepts commands line handler argument)
      (rest : Invoked commands lines calls) : Invoked commands (line :: lines) calls

/-- Commands with distinct names without `=` and zero. -/
structure WellNamed (commands : List (Command H)) : Prop where
  text : ∀ command ∈ commands, ∀ name, command.name = some name → 0 ∉ name ∧ equalSign ∉ name
  distinct : commands.Pairwise fun c d => ∀ name, c.name = some name → d.name ≠ some name

/-- What is left in the buffer of a line: collecting starts again with every 256 bytes. -/
def restarted (line : List UInt8) : List UInt8 :=
  line.drop (cliLineMax * (line.length / cliLineMax))

/-- If what is left of a line, up to its first zero, looks like a command, the line is one: it is not
too long and has no zero. -/
def Clear (commands : List (Command H)) (line : List UInt8) : Prop :=
  ∀ handler argument, Matches commands (cString (restarted line)) handler argument →
    line.length ≤ 255 ∧ 0 ∉ line

/-! ## Dispatch -/

section Dispatch

variable {commands : List (Command H)}

/-- Bytes without a zero in front of a C string. -/
theorem cString_of_no_zero {bytes : List UInt8} (h : 0 ∉ bytes) (rest : List UInt8) :
    cString (bytes ++ rest) = bytes ++ cString rest :=
  List.takeWhile_append_of_pos fun _ hc => bne_iff_ne.mpr fun h0 => h (h0 ▸ hc)

/-- Without a zero all bytes are the string. -/
theorem cString_eq_self {bytes : List UInt8} (h : 0 ∉ bytes) : cString bytes = bytes := by
  have happend := cString_of_no_zero h []
  rwa [List.append_nil, show cString [] = [] from rfl, List.append_nil] at happend

/-- A string has no zero in it. -/
theorem zero_not_mem_cString (bytes : List UInt8) : 0 ∉ cString bytes := by
  intro h
  have := List.mem_takeWhile_imp h
  cases this

/-- The name ends at the first `=`. -/
theorem takeWhile_name {name : List UInt8} (h : equalSign ∉ name) (rest : List UInt8) :
    (name ++ rest).takeWhile (· != equalSign) = name ++ rest.takeWhile (· != equalSign) ∧
      (name ++ rest).dropWhile (· != equalSign) = rest.dropWhile (· != equalSign) := by
  have hall : ∀ c ∈ name, (c != equalSign) = true :=
    fun c hc => bne_iff_ne.mpr fun h0 => h (h0 ▸ hc)
  exact ⟨List.takeWhile_append_of_pos hall, List.dropWhile_append_of_pos hall⟩

/-- The one command with a name is found. -/
theorem findSome_name (named : WellNamed commands) {command : Command H} {name : List UInt8}
    {handler : H} (mem : command ∈ commands) (hname : command.name = some name)
    (hhandler : command.handler = some handler) (args : List UInt8) :
    (commands.findSome? fun command =>
      if command.name = some name then command.handler.map (·, args) else none) =
      some (handler, args) := by
  obtain ⟨before, after, rfl⟩ := List.append_of_mem mem
  have hbefore : ∀ c ∈ before, (if c.name = some name then c.handler.map (·, args) else none) =
      none := by
    intro c hc
    refine if_neg fun hsame => ?_
    have hdistinct := (List.pairwise_append.mp named.distinct).2.2 c hc command List.mem_cons_self
    exact hdistinct name hsame hname
  rw [List.findSome?_append, List.findSome?_eq_none_iff.mpr hbefore, List.findSome?_cons, if_pos hname,
    hhandler]
  rfl

/-- A text without a zero that is a command is dispatched as one. -/
theorem dispatch_of_matches (named : WellNamed commands) {line argument : List UInt8} {handler : H}
    (h : Matches commands line handler argument) :
    dispatchLine commands line = some (handler, cString argument) := by
  unfold dispatchLine
  cases h with
  | plain mem hname hhandler =>
    rename_i command name
    obtain ⟨hzero, hequal⟩ := named.text _ mem _ hname
    rw [List.take_left, if_neg (not_not.mpr rfl), List.drop_left, cString_eq_self hzero]
    have hsplit := takeWhile_name hequal []
    rw [List.append_nil] at hsplit
    dsimp only
    rw [hsplit.1, hsplit.2, List.takeWhile_nil, List.append_nil]
    exact findSome_name named mem hname hhandler _
  | argument mem hname hhandler argument =>
    rename_i command name
    obtain ⟨hzero, hequal⟩ := named.text _ mem _ hname
    have hargument : cString (equalSign :: argument) = equalSign :: cString argument :=
      List.takeWhile_cons_of_pos (by decide)
    obtain ⟨htake, hdrop⟩ := takeWhile_name hequal (equalSign :: cString argument)
    rw [List.append_assoc, List.take_left, if_neg (not_not.mpr rfl), List.drop_left,
      cString_of_no_zero hzero, hargument]
    dsimp only
    rw [htake, hdrop, List.takeWhile_cons_of_neg (by decide), List.append_nil,
      List.dropWhile_cons_of_neg (by decide)]
    exact findSome_name named mem hname hhandler _

/-- What follows the first zero of a line does not matter. -/
theorem dispatch_cString (commands : List (Command H)) (line : List UInt8) :
    dispatchLine commands (cString line) = dispatchLine commands line := by
  have hidem (bytes : List UInt8) : cString (cString bytes) = cString bytes :=
    cString_eq_self (zero_not_mem_cString bytes)
  by_cases hheader : line.take cliHeader.length = cliHeader
  · obtain ⟨rest, rfl⟩ : ∃ rest, line = cliHeader ++ rest :=
      ⟨line.drop cliHeader.length, by
        conv_lhs => rw [← List.take_append_drop cliHeader.length line, hheader]⟩
    unfold dispatchLine
    rw [cString_of_no_zero (by decide), List.take_left, List.take_left, List.drop_left,
      List.drop_left, hidem]
  · have hcut : (cString line).take cliHeader.length ≠ cliHeader := by
      intro h
      obtain ⟨rest, hrest⟩ := List.takeWhile_prefix (l := line) (· != 0)
      apply hheader
      have hlength := congrArg List.length h
      rw [List.length_take] at hlength
      rw [← hrest, List.take_append_of_le_length (by unfold cString at hlength; omega)]
      exact h
    unfold dispatchLine
    rw [if_pos hheader, if_pos hcut]

/-- What is dispatched is a command, as far as its first zero. -/
theorem matches_of_dispatch {line argument : List UInt8} {handler : H}
    (h : dispatchLine commands line = some (handler, argument)) :
    Matches commands (cString line) handler argument := by
  unfold dispatchLine at h
  dsimp only at h
  split at h
  · cases h
  · next hheader =>
    have hline : cString line = cliHeader ++ cString (line.drop cliHeader.length) := by
      conv_lhs => rw [← List.take_append_drop cliHeader.length line, not_not.mp hheader]
      exact cString_of_no_zero (by decide) _
    obtain ⟨command, mem, hcommand⟩ := List.exists_of_findSome?_eq_some h
    split at hcommand
    · next hname =>
      obtain ⟨handler', hhandler, heq⟩ := Option.map_eq_some_iff.mp hcommand
      obtain ⟨rfl, rfl⟩ := Prod.mk.inj heq
      rw [hline]
      generalize cString (line.drop cliHeader.length) = text at hname ⊢
      have hsplit := List.takeWhile_append_dropWhile (p := (· != equalSign)) (l := text)
      cases hrest : text.dropWhile (· != equalSign) with
      | nil =>
        rw [hrest, List.append_nil] at hsplit
        rw [hsplit] at hname
        exact .plain mem hname hhandler
      | cons c rest =>
        have hc : c = equalSign := by
          have hhead := List.head_dropWhile_not (· != equalSign) (l := text) (by simp [hrest])
          simpa [hrest] using hhead
        rw [hrest, hc] at hsplit
        have hmatch := Matches.argument mem hname hhandler rest
        rw [List.append_assoc, hsplit] at hmatch
        exact hmatch
    · cases hcommand

end Dispatch

/-! ## Lines -/

section Stream

variable {commands : List (Command H)}

/-- A line that fits into the buffer is collected whole. -/
theorem restarted_of_short {line : List UInt8} (h : line.length ≤ 255) : restarted line = line := by
  unfold restarted cliLineMax
  rw [Nat.div_eq_of_lt (by omega)]
  rfl

/-- Of a longer one the rest behind the last overflow is. -/
theorem length_restarted (line : List UInt8) : (restarted line).length = line.length % 256 := by
  unfold restarted cliLineMax
  rw [List.length_drop]
  omega

/-- One more byte of a line. -/
theorem restarted_append (line : List UInt8) (byte : UInt8) :
    restarted (line ++ [byte]) =
      if (restarted line).length ≥ cliLineMax - 1 then [] else restarted line ++ [byte] := by
  have hlength := length_restarted line
  have happend := length_restarted (line ++ [byte])
  rw [List.length_append, List.length_singleton] at happend
  split
  · next hfull =>
    unfold cliLineMax at hfull
    exact List.length_eq_zero_iff.mp (by omega)
  · next hroom =>
    unfold cliLineMax at hroom
    have hsame : (line.length + 1) / cliLineMax = line.length / cliLineMax := by
      unfold cliLineMax
      omega
    unfold restarted
    rw [List.length_append, List.length_singleton, hsame, List.drop_append_of_le_length]
    exact Nat.mul_div_le _ _

/-- The calls for some lines. -/
def callsOf (commands : List (Command H)) (lines : List (List UInt8)) : List (H × List UInt8) :=
  lines.flatMap fun line =>
    if restarted line = [] then [] else (dispatchLine commands (restarted line)).toList

/-- What has been read of a stream: the buffer holds what is left of the current line, and each line
that has ended was dispatched. -/
theorem processStream_eq (commands : List (Command H)) (stream : List UInt8) :
    processStream commands stream =
      { line := restarted (current endsLine stream)
        calls := callsOf commands (complete endsLine stream) } := by
  induction stream using List.reverseRecOn with
  | nil => rfl
  | append_singleton stream byte ih =>
    unfold processStream at ih ⊢
    rw [List.foldl_append, ih, List.foldl_cons, List.foldl_nil]
    unfold CliLine.processByte
    dsimp only
    split
    · next hbyte =>
      have hend := endsLine_iff.mpr hbyte
      rw [complete_of_end hend, current_of_end hend]
      unfold callsOf
      rw [List.flatMap_append, List.flatMap_singleton]
      split
      · next hempty => rw [hempty, List.append_nil]; rfl
      · rfl
    · next hbyte =>
      have hother := not_endsLine hbyte
      rw [complete_of_other hother, current_of_other hother, restarted_append]
      split <;> rfl

/-- The line collects in the buffer that `Input` has for it. -/
theorem processByte_input (commands : List (Command H)) {s : CliLine H} {input : Input}
    (hline : s.line = input.line)
    (hcalls : s.calls = input.lines.flatMap fun line => (dispatchLine commands line).toList)
    (byte : UInt8) :
    (s.processByte commands byte).line = (input.rtbusCliProcessByte byte).line ∧
      (s.processByte commands byte).calls =
        (input.rtbusCliProcessByte byte).lines.flatMap fun line =>
          (dispatchLine commands line).toList := by
  unfold CliLine.processByte Input.rtbusCliProcessByte Input.rtbusCliDispatchLine
  rw [hline, hcalls]
  split
  · split
    · exact ⟨hline, hcalls⟩
    · rw [List.flatMap_append, List.flatMap_singleton]
      exact ⟨rfl, rfl⟩
  · split
    · exact ⟨rfl, rfl⟩
    · exact ⟨rfl, rfl⟩

/-- A line that must run a handler is dispatched, and the handler sees the argument up to its first
zero. -/
theorem dispatch_of_accepts (named : WellNamed commands) {line argument : List UInt8} {handler : H}
    (h : Accepts commands line handler argument) :
    callsOf commands [line] = [(handler, cString argument)] := by
  obtain ⟨hshort, hmatches⟩ := h
  have hne : line ≠ [] := by
    rintro rfl
    cases hmatches
  unfold callsOf
  rw [List.flatMap_singleton, restarted_of_short hshort, if_neg hne, dispatch_of_matches named hmatches]
  rfl

/-- The calls of lines are those of each. -/
theorem callsOf_cons (commands : List (Command H)) (line : List UInt8)
    (lines : List (List UInt8)) :
    callsOf commands (line :: lines) = callsOf commands [line] ++ callsOf commands lines := by
  unfold callsOf
  rw [List.flatMap_cons, List.flatMap_singleton]

/-- No call is missing. -/
theorem length_of_invoked (named : WellNamed commands) {lines : List (List UInt8)}
    {calls : List (H × List UInt8)} (h : Invoked commands lines calls) :
    calls.length ≤ (callsOf commands lines).length := by
  induction h with
  | nil => exact Nat.le_refl _
  | call accepts _ ih =>
    rw [callsOf_cons, dispatch_of_accepts named accepts, List.length_append, List.length_cons]
    rw [List.length_singleton]
    omega
  | skip _ _ ih =>
    rw [callsOf_cons, List.length_append]
    omega

/-- What is dispatched of a line. -/
theorem callsOf_singleton (commands : List (Command H)) (line : List UInt8) :
    callsOf commands [line] = [] ∨ ∃ handler argument,
      callsOf commands [line] = [(handler, argument)] ∧
        Matches commands (cString (restarted line)) handler argument := by
  unfold callsOf
  rw [List.flatMap_singleton]
  split
  · exact .inl rfl
  · cases hdispatch : dispatchLine commands (restarted line) with
    | none => exact .inl rfl
    | some call => exact .inr ⟨call.1, call.2, rfl, matches_of_dispatch hdispatch⟩

/-- If what is left of a line is not a command, nothing is dispatched. -/
theorem clear_of_no_call (named : WellNamed commands) {line : List UInt8}
    (h : callsOf commands [line] = []) : Clear commands line := by
  intro handler argument hmatches
  have hdispatch := dispatch_of_matches named hmatches
  rw [dispatch_cString] at hdispatch
  unfold callsOf at h
  rw [List.flatMap_singleton, hdispatch] at h
  split at h
  · next hempty =>
    rw [hempty] at hmatches
    cases hmatches
  · cases h

/-- A command whose argument has no zero has none. -/
theorem zero_not_mem_of_matches (named : WellNamed commands) {line argument : List UInt8}
    {handler : H} (h : Matches commands line handler argument) (hzero : 0 ∉ argument) :
    0 ∉ line := by
  have hheader : 0 ∉ cliHeader := by decide
  cases h with
  | plain mem hname _ =>
    intro h
    rcases List.mem_append.mp h with h | h
    · exact hheader h
    · exact (named.text _ mem _ hname).1 h
  | argument mem hname _ argument =>
    intro h
    rcases List.mem_append.mp h with h | h
    · rcases List.mem_append.mp h with h | h
      · exact hheader h
      · exact (named.text _ mem _ hname).1 h
    · rcases List.mem_cons.mp h with h | h
      · cases h
      · exact hzero h

/-- The calls are those that the lines ask for only if every line is clear. -/
theorem clear_of_invoked (named : WellNamed commands) {lines : List (List UInt8)}
    (h : Invoked commands lines (callsOf commands lines)) : ∀ line ∈ lines, Clear commands line := by
  induction lines with
  | nil => exact nofun
  | cons line lines ih =>
    rw [callsOf_cons] at h
    refine List.forall_mem_cons.mpr ?_
    generalize hcalls : callsOf commands [line] ++ callsOf commands lines = calls at h
    cases h with
    | call accepts rest =>
      rename_i handler argument calls
      rw [dispatch_of_accepts named accepts, List.singleton_append] at hcalls
      obtain ⟨hcall, rfl⟩ := List.cons_eq_cons.mp hcalls
      refine ⟨fun _ _ _ => ⟨accepts.1, ?_⟩, ih rest⟩
      -- the handler has seen the whole argument, so there is no zero in it
      have hzero : 0 ∉ argument := by
        rw [← (Prod.mk.inj hcall).2]
        exact zero_not_mem_cString argument
      exact zero_not_mem_of_matches named accepts.2 hzero
    | skip _ rest =>
      rcases callsOf_singleton commands line with hnone | ⟨handler, argument, hcall, _⟩
      · rw [hnone, List.nil_append] at hcalls
        rw [← hcalls] at rest
        exact ⟨clear_of_no_call named hnone, ih rest⟩
      · have hlength := length_of_invoked named rest
        rw [← hcalls, hcall, List.length_append, List.length_singleton] at hlength
        omega

/-- Clear lines run what they ask for. -/
theorem invoked_of_clear (named : WellNamed commands) {lines : List (List UInt8)}
    (h : ∀ line ∈ lines, Clear commands line) : Invoked commands lines (callsOf commands lines) := by
  induction lines with
  | nil => exact .nil
  | cons line lines ih =>
    have hrest := ih fun line hline => h line (List.mem_cons_of_mem _ hline)
    have hclear := h line List.mem_cons_self
    rw [callsOf_cons]
    rcases callsOf_singleton commands line with hnone | ⟨handler, argument, hcall, hmatches⟩
    · rw [hnone]
      refine .skip (fun handler argument haccepts => ?_) hrest
      rw [dispatch_of_accepts named haccepts] at hnone
      cases hnone
    · obtain ⟨hshort, hzero⟩ := hclear handler argument hmatches
      rw [restarted_of_short hshort, cString_eq_self hzero] at hmatches
      rw [hcall]
      exact .call ⟨hshort, hmatches⟩ hrest

/-- A stream does more or less than it says as soon as one of its lines is not clear. -/
theorem not_invoked (named : WellNamed commands) {stream line argument : List UInt8} {handler : H}
    (mem : line ∈ complete endsLine stream)
    (hmatches : Matches commands (cString (restarted line)) handler argument)
    (long : ¬ line.length ≤ 255) :
    ¬ Invoked commands (complete endsLine stream) (processStream commands stream).calls := by
  rw [processStream_eq]
  exact fun h => long (clear_of_invoked named h line mem handler argument hmatches).1

/-- Exactly the command lines of a stream run their handlers, in order, if and only if every line is
clear. -/
theorem invoked_iff_clear (commands : List (Command H)) (named : WellNamed commands)
    (stream : List UInt8) :
    Invoked commands (complete endsLine stream) (processStream commands stream).calls ↔
      ∀ line ∈ complete endsLine stream, Clear commands line := by
  rw [processStream_eq]
  exact ⟨clear_of_invoked named, invoked_of_clear named⟩

end Stream

/-- The command `REBOOT`. -/
def rebootCommand : Command Unit := { name := some [0x52, 0x45, 0x42, 0x4f, 0x4f, 0x54], handler := some () }

/-- The one command has a name without a terminator. -/
theorem wellNamed_reboot : WellNamed [rebootCommand] where
  text := by
    intro command hcommand name hname
    rw [List.mem_singleton.mp hcommand] at hname
    cases hname
    decide
  distinct := List.pairwise_singleton _ _

/-- The command line for it. -/
def rebootLine : List UInt8 := cliHeader ++ [0x52, 0x45, 0x42, 0x4f, 0x4f, 0x54]

theorem reboot_runs : Invoked [rebootCommand] (complete endsLine (rebootLine ++ [lf]))
    (processStream [rebootCommand] (rebootLine ++ [lf])).calls := by
  refine (invoked_iff_clear _ wellNamed_reboot (rebootLine ++ [lf])).mpr fun line hline _ _ _ => ?_
  rw [show complete endsLine (rebootLine ++ [lf]) = [rebootLine] by decide] at hline
  rw [List.mem_singleton.mp hline]
  decide

/-- A line of 256 bytes of garbage in front of it reboots the board as well. -/
theorem garbage_reboots :
    ¬ Invoked [rebootCommand]
      (complete endsLine (List.replicate 256 0x78 ++ rebootLine ++ [lf]))
      (processStream [rebootCommand] (List.replicate 256 0x78 ++ rebootLine ++ [lf])).calls := by
  have hmem : List.replicate 256 0x78 ++ rebootLine ∈
      complete endsLine (List.replicate 256 0x78 ++ rebootLine ++ [lf]) := by
    decide +kernel
  have htext : cString (restarted (List.replicate 256 0x78 ++ rebootLine)) = rebootLine := by
    decide +kernel
  have hlong : ¬ (List.replicate 256 0x78 ++ rebootLine).length ≤ 255 := by decide +kernel
  have hmatches : Matches [rebootCommand] rebootLine () [] :=
    .plain (List.mem_singleton_self _) rfl rfl
  rw [← htext] at hmatches
  exact not_invoked wellNamed_reboot hmem hmatches hlong

end Rtbus.Cli
