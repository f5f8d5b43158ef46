import Rtbus.Base.Occurrence
import Rtbus.Ymodem.Uploader

/-!
# The status after a transfer

When the last packet has gone out, `wait_final_status` reads on until it finds one of four texts in
what comes, or its time is up. It keeps the last 159 bytes in a `char` array, always with a zero
behind them, and looks with `strstr`.

`strstr` ends at the first zero byte. One that was read and is still in the window hides all that
came behind it, so a text is found when it is complete exactly if no zero byte is among the last 159
bytes at that point (`findsStatus_iff`). Otherwise it is found when the zero byte has left the
window, or never: then the upload counts as successful, whatever the text said.

The clock and the line are given as what the turns of the loop see of them.
-/

namespace Rtbus.Ymodem

open Occurrence

/-! ## The window -/

/-- A `char` array and the number of bytes in it. -/
structure CharWindow where
  chars : List UInt8
  used : Nat

/-- The array after `memset(window, 0, sizeof(window))`. -/
def CharWindow.zeroed (size : Nat) : CharWindow := ⟨List.replicate size 0, 0⟩

/-- `memmove(window, window + 1, n)`. -/
def moveDown (chars : List UInt8) (n : Nat) : List UInt8 := (chars.drop 1).take n ++ chars.drop n

/-- A byte is put into the window. -/
def CharWindow.put (size : Nat) (w : CharWindow) (byte : UInt8) : CharWindow :=
  if w.used < size - 1 then ⟨(w.chars.set w.used byte).set (w.used + 1) 0, w.used + 1⟩
  else ⟨((moveDown w.chars (size - 2)).set (size - 2) byte).set (size - 1) 0, w.used⟩

/-- The array with the bytes `content` in it. -/
def CharWindow.of (size : Nat) (content : List UInt8) : CharWindow :=
  ⟨content ++ List.replicate (size - content.length) 0, content.length⟩

/-! ## The loop -/

/-- `"MODULE STAGED"`. -/
def moduleStagedText : List UInt8 :=
  [0x4d, 0x4f, 0x44, 0x55, 0x4c, 0x45, 0x20, 0x53, 0x54, 0x41, 0x47, 0x45, 0x44]

/-- `"IMAGE ACCEPTED"`. -/
def imageAcceptedText : List UInt8 :=
  [0x49, 0x4d, 0x41, 0x47, 0x45, 0x20, 0x41, 0x43, 0x43, 0x45, 0x50, 0x54, 0x45, 0x44]

/-- `"PATCH STAGED"`. -/
def patchStagedText : List UInt8 :=
  [0x50, 0x41, 0x54, 0x43, 0x48, 0x20, 0x53, 0x54, 0x41, 0x47, 0x45, 0x44]

/-- The ways in which `wait_final_status` ends: with a text, or with the note that no status was
reported. -/
inductive FinalStatus
  | staged
  | error
  | assumed
  deriving DecidableEq

/-- What it returns. -/
def FinalStatus.result : FinalStatus → Int
  | .staged => 0
  | .error => -1
  | .assumed => 0

/-- What a turn of the loop sees: `now_ms`, and the byte of `serial_read_byte` if it has one. -/
structure Poll where
  now : Int
  byte : Option UInt8
  deriving DecidableEq

/-- `sizeof(window)`. -/
abbrev finalWindow : Nat := 160

/-- The loop of `wait_final_status`: how it ends, and the turns that are left. -/
def waitTurns (deadline : Int) (w : CharWindow) : List Poll → Option (FinalStatus × List Poll)
  | [] => none
  | poll :: polls =>
    if poll.now < deadline then
      match poll.byte with
      | none => waitTurns deadline w polls
      | some byte =>
        let w := w.put finalWindow byte
        if strstr w.chars moduleStagedText ∨ strstr w.chars imageAcceptedText ∨
            strstr w.chars patchStagedText then some (.staged, polls)
        else if strstr w.chars errorText then some (.error, polls)
        else waitTurns deadline w polls
    else some (.assumed, polls)

/-- `wait_final_status`, called at the time `start`. -/
def waitFinalStatus (start timeoutMs : Int) (polls : List Poll) : Option (FinalStatus × List Poll) :=
  waitTurns (start + timeoutMs) (.zeroed finalWindow) polls

/-! ## What it is for -/

/-- The texts, and what each means. -/
def statusTexts : List (List UInt8 × FinalStatus) :=
  [(moduleStagedText, .staged), (imageAcceptedText, .staged), (patchStagedText, .staged),
    (errorText, .error)]

/-- The bytes that some turns read. -/
def bytesRead (polls : List Poll) : List UInt8 := polls.filterMap Poll.byte

/-- There is a status text among some bytes. -/
def HasText (bytes : List UInt8) : Prop := ∃ entry ∈ statusTexts, entry.1 <:+: bytes

/-- The turns `before` and one more are in time, and the byte of that one completes the first text,
which means `status`. -/
structure FirstText (deadline : Int) (before : List Poll) (poll : Poll) (byte : UInt8)
    (status : FinalStatus) : Prop where
  reads : poll.byte = some byte
  inTime : ∀ p ∈ before ++ [poll], p.now < deadline
  first : ¬ HasText (bytesRead before)
  completed : ∃ text, (text, status) ∈ statusTexts ∧ text <:+ bytesRead before ++ [byte]

/-- The turns up to the deadline. -/
def inTime (deadline : Int) (polls : List Poll) : List Poll := polls.takeWhile (·.now < deadline)

/-- `wait_final_status` finds what there is to find. -/
structure FindsStatus (start timeoutMs : Int) (polls : List Poll) : Prop where
  /-- It returns with the first byte that completes a text, and with what the text means. -/
  found : ∀ before poll byte status after, polls = before ++ poll :: after →
    FirstText (start + timeoutMs) before poll byte status →
    waitFinalStatus start timeoutMs polls = some (status, after)
  /-- It reports what no text means only at the deadline. -/
  only : ∀ status after, waitFinalStatus start timeoutMs polls = some (status, after) →
    status ≠ .assumed → ∃ before poll byte, polls = before ++ poll :: after ∧
      FirstText (start + timeoutMs) before poll byte status
  /-- It assumes success only if it has read no text. -/
  assumed : ∀ after, waitFinalStatus start timeoutMs polls = some (.assumed, after) →
    ¬ HasText (bytesRead (inTime (start + timeoutMs) polls))

/-- Among the last bytes read, as many as the window holds, there is no zero. -/
def Clear (read : List UInt8) : Prop := 0 ∉ read.rtake (finalWindow - 1)

/-- When the first text is complete there is no zero byte among the last ones. -/
def ClearAtFirst (deadline : Int) (polls : List Poll) : Prop :=
  ∀ before poll byte status after, polls = before ++ poll :: after →
    FirstText deadline before poll byte status → Clear (bytesRead before ++ [byte])

/-! ## The window and the bytes read -/

/-- What `strstr` looks at ends at the first zero. -/
theorem strstr_iff {haystack needle : List UInt8} :
    strstr haystack needle = true ↔ needle <:+: haystack.takeWhile (· != 0) := by
  unfold strstr
  simp only [List.any_eq_true, List.mem_tails, List.isPrefixOf_iff_prefix,
    List.infix_iff_prefix_suffix]
  exact exists_congr fun _ => and_comm

/-- The zeros behind the bytes in use end the search, if nothing else does. -/
theorem takeWhile_of {size : Nat} {content : List UInt8} (room : content.length < size) :
    (CharWindow.of size content).chars.takeWhile (· != 0) = content.takeWhile (· != 0) := by
  obtain ⟨k, hk⟩ : ∃ k, size - content.length = k + 1 := ⟨size - content.length - 1, by omega⟩
  simp only [CharWindow.of, hk, List.replicate_succ]
  rw [List.takeWhile_append]
  split
  · rename_i hall
    rw [List.takeWhile_cons_of_neg (by simp), List.append_nil]
    exact ((List.takeWhile_prefix _).eq_of_length hall).symm
  · rfl

/-- Putting a byte into the array is putting it behind the bytes in use. -/
theorem put_of {size : Nat} {content : List UInt8} (byte : UInt8) (two : 2 ≤ size)
    (room : content.length < size) :
    (CharWindow.of size content).put size byte = .of size (pushWindow size content byte) := by
  unfold CharWindow.put pushWindow
  simp only [CharWindow.of]
  split
  · obtain ⟨k, hk⟩ : ∃ k, size - content.length = k + 2 := ⟨size - content.length - 2, by omega⟩
    have hk' : size - (content.length + 1) = k + 1 := by omega
    simp [hk, hk', List.replicate_succ, List.set_append_right]
    omega
  · -- the window is full: its first byte goes
    obtain ⟨n, rfl⟩ : ∃ n, size = n + 2 := ⟨size - 2, by omega⟩
    cases content with
    | nil => simp at *
    | cons a rest =>
      have hlen : rest.length = n := by
        simp only [List.length_cons] at *
        omega
      have htwo : ((a :: (rest ++ [0])).drop n).length = 2 := by
        simp only [List.length_drop, List.length_cons, List.length_append, List.length_nil]
        omega
      obtain ⟨x, y, hxy⟩ := List.length_eq_two.mp htwo
      have hmove : moveDown (a :: (rest ++ [0])) n = rest ++ [x, y] := by
        rw [moveDown, hxy]
        simp [← hlen]
      simp [hlen, hmove, List.set_append_right]

/-- The window of what has been read so far moves on by one byte. -/
theorem pushWindow_rtake {size : Nat} (read : List UInt8) (byte : UInt8) (two : 2 ≤ size) :
    pushWindow size (read.rtake (size - 1)) byte = (read ++ [byte]).rtake (size - 1) := by
  rw [rtake_concat (by omega)]
  unfold pushWindow List.rtake
  simp only [List.length_drop]
  split
  · rw [show read.length - (size - 1) = 0 by omega, show read.length - (size - 1 - 1) = 0 by omega]
  · rw [List.drop_drop]
    congr 2
    omega

/-- The window after some bytes have been read. -/
def windowOf (read : List UInt8) : CharWindow := .of finalWindow (read.rtake (finalWindow - 1))

theorem last_lt_finalWindow : finalWindow - 1 < finalWindow := by decide

theorem windowOf_put (read : List UInt8) (byte : UInt8) :
    (windowOf read).put finalWindow byte = windowOf (read ++ [byte]) := by
  have hroom := Nat.lt_of_le_of_lt (@length_rtake_le _ read _) last_lt_finalWindow
  unfold windowOf
  rw [put_of byte (by decide) hroom, pushWindow_rtake read byte (by decide)]

/-- A text that one more byte brings about is seen if the window is clear. -/
theorem strstr_windowOf {read text : List UInt8} {byte : UInt8} (new : ¬ text <:+: read)
    (fits : text.length ≤ finalWindow - 1) :
    strstr (windowOf (read ++ [byte])).chars text = true ↔
      text <:+ read ++ [byte] ∧ Clear (read ++ [byte]) := by
  have hroom := Nat.lt_of_le_of_lt (@length_rtake_le _ (read ++ [byte]) _) last_lt_finalWindow
  rw [strstr_iff, windowOf, takeWhile_of hroom, infix_kept_iff new (by decide) fits]
  refine and_congr_right fun _ => ?_
  unfold Clear
  constructor
  · intro h hzero
    simpa using h 0 hzero
  · intro h x hx
    simp only [bne_iff_ne]
    rintro rfl
    exact h hx

/-! ## The texts -/

/-- Texts are neither empty nor longer than the window. -/
theorem text_length {entry : List UInt8 × FinalStatus} (h : entry ∈ statusTexts) :
    0 < entry.1.length ∧ entry.1.length ≤ finalWindow - 1 := by
  revert entry
  decide

theorem text_status {text : List UInt8} {status : FinalStatus} (h : (text, status) ∈ statusTexts) :
    status ≠ .assumed := by
  rintro rfl
  simp [statusTexts] at h

/-- No bytes end with two texts of different meaning. -/
theorem status_unique {text text' read : List UInt8} {status status' : FinalStatus}
    (h : (text, status) ∈ statusTexts) (h' : (text', status') ∈ statusTexts) (ends : text <:+ read)
    (ends' : text' <:+ read) : status = status' := by
  have last : ∀ {t : List UInt8} {s : FinalStatus}, (t, s) ∈ statusTexts → t <:+ read →
      read.getLast? = t.getLast? := by
    rintro t s ht ⟨front, rfl⟩
    exact List.getLast?_append_of_ne_nil _ (List.ne_nil_of_length_pos (text_length ht).1)
  have tell : ∀ e ∈ statusTexts, ∀ e' ∈ statusTexts, e.1.getLast? = e'.1.getLast? → e.2 = e'.2 := by
    decide
  exact tell _ h _ h' ((last h ends).symm.trans (last h' ends'))

theorem HasText.mono {xs ys : List UInt8} (h : HasText xs) (sub : xs <:+: ys) : HasText ys := by
  obtain ⟨entry, hentry, hin⟩ := h
  exact ⟨entry, hentry, hin.trans sub⟩

theorem not_hasText_nil : ¬ HasText [] := by
  rintro ⟨entry, hentry, hin⟩
  have hlen := hin.length_le
  have := (text_length hentry).1
  simp only [List.length_nil] at hlen
  omega

/-- The first text is complete with the byte that brings it about. -/
theorem hasText_concat {read : List UInt8} {byte : UInt8} (silent : ¬ HasText read)
    (h : HasText (read ++ [byte])) :
    ∃ text status, (text, status) ∈ statusTexts ∧ text <:+ read ++ [byte] := by
  obtain ⟨⟨text, status⟩, hentry, hin⟩ := h
  refine ⟨text, status, hentry, (infix_concat_iff_of_new fun hin' => ?_).mp hin⟩
  exact silent ⟨_, hentry, hin'⟩

/-! ## The turns -/

section Turns

variable {deadline : Int} {read : List UInt8} {poll : Poll} {polls : List Poll} {byte : UInt8}

/-- A turn that reads nothing changes nothing. -/
theorem waitTurns_idle {w : CharWindow} (reads : poll.byte = none) (time : poll.now < deadline) :
    waitTurns deadline w (poll :: polls) = waitTurns deadline w polls := by
  simp only [waitTurns, if_pos time, reads]

/-- What the four searches of a turn find. -/
theorem strstr_text {text : List UInt8} {status : FinalStatus} (silent : ¬ HasText read)
    (entry : (text, status) ∈ statusTexts) :
    strstr (windowOf (read ++ [byte])).chars text = true ↔
      text <:+ read ++ [byte] ∧ Clear (read ++ [byte]) :=
  strstr_windowOf (fun hin => silent ⟨_, entry, hin⟩) (text_length entry).2

/-- A turn that sees no text for success goes on to look for an error. -/
theorem not_staged {w : CharWindow}
    (unseen : ∀ text, (text, FinalStatus.staged) ∈ statusTexts → ¬ strstr w.chars text = true) :
    ¬ (strstr w.chars moduleStagedText = true ∨ strstr w.chars imageAcceptedText = true ∨
      strstr w.chars patchStagedText = true) := by
  rintro (h | h | h)
  · exact unseen moduleStagedText (by simp [statusTexts]) h
  · exact unseen imageAcceptedText (by simp [statusTexts]) h
  · exact unseen patchStagedText (by simp [statusTexts]) h

/-- A turn that reads a byte which completes the first text ends the search, if the window is
clear. -/
theorem waitTurns_text {text : List UInt8} {status : FinalStatus} (reads : poll.byte = some byte)
    (time : poll.now < deadline) (silent : ¬ HasText read) (entry : (text, status) ∈ statusTexts)
    (ends : text <:+ read ++ [byte]) (clear : Clear (read ++ [byte])) :
    waitTurns deadline (windowOf read) (poll :: polls) = some (status, polls) := by
  have seen : strstr (windowOf (read ++ [byte])).chars text = true :=
    (strstr_text silent entry).mpr ⟨ends, clear⟩
  -- the other texts are not there
  have unseen : ∀ {other : List UInt8} (meaning : FinalStatus), (other, meaning) ∈ statusTexts →
      meaning ≠ status → ¬ strstr (windowOf (read ++ [byte])).chars other = true :=
    fun _ hother hne h =>
      hne (status_unique hother entry ((strstr_text silent hother).mp h).1 ends)
  simp only [waitTurns, if_pos time, reads, windowOf_put]
  simp only [statusTexts, List.mem_cons, Prod.mk.injEq, List.not_mem_nil, or_false] at entry
  rcases entry with ⟨rfl, rfl⟩ | ⟨rfl, rfl⟩ | ⟨rfl, rfl⟩ | ⟨rfl, rfl⟩
  · exact if_pos (.inl seen)
  · exact if_pos (.inr (.inl seen))
  · exact if_pos (.inr (.inr seen))
  · exact (if_neg (not_staged fun _ hother => unseen .staged hother (by decide))).trans
      (if_pos seen)

/-- Any other turn goes on. -/
theorem waitTurns_byte (reads : poll.byte = some byte) (time : poll.now < deadline)
    (silent : ¬ HasText read) (blind : HasText (read ++ [byte]) → ¬ Clear (read ++ [byte])) :
    waitTurns deadline (windowOf read) (poll :: polls) =
      waitTurns deadline (windowOf (read ++ [byte])) polls := by
  have unseen : ∀ {text : List UInt8} (status : FinalStatus), (text, status) ∈ statusTexts →
      ¬ strstr (windowOf (read ++ [byte])).chars text = true := by
    intro text status entry h
    obtain ⟨ends, clear⟩ := (strstr_text silent entry).mp h
    exact blind ⟨_, entry, ends.isInfix⟩ clear
  simp only [waitTurns, if_pos time, reads, windowOf_put]
  rw [if_neg (not_staged fun _ => unseen .staged), if_neg]
  exact unseen .error (by simp [statusTexts])

/-- Turns in time that bring about no text only fill the window. -/
theorem waitTurns_through {before : List Poll} (time : ∀ p ∈ before, p.now < deadline)
    (silent : ¬ HasText (read ++ bytesRead before)) (rest : List Poll) :
    waitTurns deadline (windowOf read) (before ++ rest) =
      waitTurns deadline (windowOf (read ++ bytesRead before)) rest := by
  induction before generalizing read with
  | nil => simp [bytesRead]
  | cons poll before ih =>
    have hnow := time poll (List.mem_cons_self ..)
    have htime : ∀ p ∈ before, p.now < deadline := fun p hp => time p (List.mem_cons_of_mem _ hp)
    cases reads : poll.byte with
    | none =>
      have hbytes : bytesRead (poll :: before) = bytesRead before := by simp [bytesRead, reads]
      rw [hbytes] at silent ⊢
      rw [List.cons_append, waitTurns_idle reads hnow, ih htime silent]
    | some byte =>
      have hbytes : read ++ bytesRead (poll :: before) = read ++ [byte] ++ bytesRead before := by
        simp [bytesRead, reads]
      rw [hbytes] at silent ⊢
      have hnext : ¬ HasText (read ++ [byte]) :=
        fun h => silent (h.mono (List.prefix_append ..).isInfix)
      have hread : ¬ HasText read := fun h => hnext (h.mono (List.prefix_append ..).isInfix)
      rw [List.cons_append, waitTurns_byte reads hnow hread fun h => absurd h hnext,
        ih htime silent]

/-- The search has used at least one turn when it ends. -/
theorem waitTurns_length {w : CharWindow} {status : FinalStatus} {after : List Poll}
    (h : waitTurns deadline w polls = some (status, after)) : after.length < polls.length := by
  induction polls generalizing w with
  | nil => cases h
  | cons poll polls ih =>
    rw [List.length_cons]
    unfold waitTurns at h
    split at h
    · split at h
      · exact Nat.lt_succ_of_lt (ih h)
      · dsimp only at h
        split at h
        · cases h
          exact Nat.lt_succ_self _
        · split at h
          · cases h
            exact Nat.lt_succ_self _
          · exact Nat.lt_succ_of_lt (ih h)
    · cases h
      exact Nat.lt_succ_self _

end Turns

/-! ## The search -/

section Search

variable {start timeoutMs : Int} {polls : List Poll}

theorem zeroed_eq : CharWindow.zeroed finalWindow = windowOf [] := rfl

/-- What is read in time, and the first turn that comes too late. -/
theorem inTime_split (deadline : Int) (polls : List Poll) :
    ∃ late, polls = inTime deadline polls ++ late ∧ (∀ p ∈ inTime deadline polls, p.now < deadline) ∧
      ∀ p ∈ late.head?, ¬ p.now < deadline := by
  refine ⟨polls.dropWhile (·.now < deadline), List.takeWhile_append_dropWhile.symm, ?_, ?_⟩
  · intro p hp
    simpa using List.mem_takeWhile_imp hp
  · intro p hp
    have h := List.head?_dropWhile_not (·.now < deadline) polls
    rw [Option.mem_def.mp hp] at h
    simpa using h

/-- Without a text among the bytes read in time the search goes on to the deadline. -/
theorem assumed_of_silent {status : FinalStatus} {after : List Poll}
    (silent : ¬ HasText (bytesRead (inTime (start + timeoutMs) polls)))
    (h : waitFinalStatus start timeoutMs polls = some (status, after)) : status = .assumed := by
  obtain ⟨late, hsplit, time, hlate⟩ := inTime_split (start + timeoutMs) polls
  rw [waitFinalStatus, zeroed_eq, hsplit, waitTurns_through time silent] at h
  cases late with
  | nil => cases h
  | cons poll late =>
    rw [waitTurns, if_neg (hlate poll rfl)] at h
    cases h
    rfl

/-- Among turns whose bytes have a text in them is one that completes the first. -/
theorem exists_firstText {deadline : Int} (h : HasText (bytesRead (inTime deadline polls))) :
    ∃ before poll byte status after, polls = before ++ poll :: after ∧
      FirstText deadline before poll byte status := by
  obtain ⟨late, hsplit, time, _⟩ := inTime_split deadline polls
  obtain ⟨before, poll, after, hin, silent, htext⟩ :=
    exists_first (P := fun ps => HasText (bytesRead ps)) not_hasText_nil h
  have htime : ∀ p ∈ before ++ [poll], p.now < deadline := by
    intro p hp
    refine time p ?_
    rw [hin]
    simp only [List.mem_append, List.mem_cons, List.not_mem_nil, or_false] at hp ⊢
    exact hp.imp_right Or.inl
  have hbytes : bytesRead (before ++ [poll]) = bytesRead before ++ bytesRead [poll] :=
    List.filterMap_append
  rw [hbytes] at htext
  cases reads : poll.byte with
  | none =>
    have hnone : bytesRead [poll] = [] := by simp [bytesRead, reads]
    rw [hnone, List.append_nil] at htext
    exact absurd htext silent
  | some byte =>
    have hone : bytesRead [poll] = [byte] := by simp [bytesRead, reads]
    rw [hone] at htext
    obtain ⟨text, status, entry, ends⟩ := hasText_concat silent htext
    refine ⟨before, poll, byte, status, after ++ late, ?_, reads, htime, silent, text, entry, ends⟩
    rw [hsplit, hin, List.append_assoc, List.cons_append]

/-- The search arrives at the byte that completes the first text. -/
theorem waitFinalStatus_first {before after : List Poll} {poll : Poll} {byte : UInt8}
    {status : FinalStatus} (first : FirstText (start + timeoutMs) before poll byte status) :
    waitFinalStatus start timeoutMs (before ++ poll :: after) =
      waitTurns (start + timeoutMs) (windowOf (bytesRead before)) (poll :: after) := by
  have time : ∀ p ∈ before, p.now < start + timeoutMs :=
    fun p hp => first.inTime p (List.mem_append_left _ hp)
  rw [waitFinalStatus, zeroed_eq, waitTurns_through time first.first]
  rfl

/-- The search finds what there is to find exactly if no zero byte is among the last 159 bytes when
the first text is complete. -/
theorem findsStatus_iff (start timeoutMs : Int) (polls : List Poll) :
    FindsStatus start timeoutMs polls ↔ ClearAtFirst (start + timeoutMs) polls := by
  constructor
  · rintro finds before poll byte status after rfl first
    have hfound := finds.found before poll byte status after rfl first
    have hnow := first.inTime poll (by simp)
    refine Classical.byContradiction fun dirty => ?_
    rw [waitFinalStatus_first first, waitTurns_byte first.reads hnow first.first fun _ => dirty]
      at hfound
    exact Nat.lt_irrefl _ (waitTurns_length hfound)
  · intro clear
    have found : ∀ before poll byte status after, polls = before ++ poll :: after →
        FirstText (start + timeoutMs) before poll byte status →
        waitFinalStatus start timeoutMs polls = some (status, after) := by
      intro before poll byte status after hsplit first
      have hclear := clear before poll byte status after hsplit first
      have hnow := first.inTime poll (by simp)
      obtain ⟨text, entry, ends⟩ := first.completed
      rw [hsplit, waitFinalStatus_first first]
      exact waitTurns_text first.reads hnow first.first entry ends hclear
    refine ⟨found, fun status after h hne => ?_, fun after h htext => ?_⟩
    · have htext : HasText (bytesRead (inTime (start + timeoutMs) polls)) :=
        Classical.byContradiction fun silent => hne (assumed_of_silent silent h)
      obtain ⟨before, poll, byte, status', after', hsplit, first⟩ := exists_firstText htext
      have hfound := found before poll byte status' after' hsplit first
      obtain ⟨rfl, rfl⟩ := Prod.mk.inj (Option.some.inj (h.symm.trans hfound))
      exact ⟨before, poll, byte, hsplit, first⟩
    · obtain ⟨before, poll, byte, status', after', hsplit, first⟩ := exists_firstText htext
      have hfound := found before poll byte status' after' hsplit first
      obtain ⟨rfl, rfl⟩ := Prod.mk.inj (Option.some.inj (h.symm.trans hfound))
      obtain ⟨text, entry, _⟩ := first.completed
      exact text_status entry rfl

end Search

/-- A zero byte and then the text of an error, and nothing more until the time is up. -/
def hiddenError : List Poll :=
  (0 :: errorText).map (fun byte => ⟨0, some byte⟩) ++ [⟨1500, none⟩]

example : (waitFinalStatus 0 1500 hiddenError).map (·.1.result) = some 0 := by decide +kernel

/-- An error behind a zero byte is taken for success. -/
theorem hidden_error_missed :
    ¬ ∀ start timeoutMs polls, FindsStatus start timeoutMs polls := by
  intro always
  have first : FirstText (0 + 1500) (hiddenError.take 5) ⟨0, some 0x52⟩ 0x52 .error := by
    refine ⟨rfl, by decide, ?_, errorText, by decide, by decide⟩
    rintro ⟨entry, hentry, hin⟩
    revert entry
    decide
  have hfound := (always 0 1500 hiddenError).found _ _ _ _ [⟨1500, none⟩] rfl first
  have hassumed : waitFinalStatus 0 1500 hiddenError = some (.assumed, []) := by decide +kernel
  rw [hassumed] at hfound
  cases hfound

end Rtbus.Ymodem
