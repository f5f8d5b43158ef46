import Rtbus.Base.Priority
import Rtbus.Emos.Delays
import Rtbus.Emos.Progress

/-!
# What is queued, and what a step adds to it

`linklist_count` and `linklist_get` read a list without changing it. With them `contents` reads the
contexts queued for a priority out of the memory of a bus.

`Bus.Observed` is an operation of any run, delayed posts included, with what can be seen of it: the
due events that the call of `rtbus_process` has moved into the queues, and the log. By
`observed_simulates` it is a step of a priority queue, in which what arrives are the posts that
returned 0 and the events that were moved.
-/

namespace Rtbus.Pool

/-- The scan of `linklist_count` behind the first node. -/
def countNodes (m : Memory) : Nat → Nat → Nat → Option Nat
  | 0, _, _ => none
  | fuel + 1, last, count =>
    if last = null ∨ m.load32 last = null then some count
    else countNodes m fuel (m.load32 last) (wrap (count + 1))

/-- `linklist_count`. -/
def linklistCount (h : Heap) (_poolId source : Nat) : Option Nat :=
  countNodes h.mem chainMax source (if source ≠ null then 1 else 0)

/-- The scan of `linklist_get` behind the first node. -/
def getNode (m : Memory) (index : Nat) : Nat → Nat → Nat → Option Nat
  | 0, _, _ => none
  | fuel + 1, last, count =>
    if last = null ∨ m.load32 last = null then some null
    else if wrap (count + 1) = index then some (m.load32 last)
    else getNode m index fuel (m.load32 last) (wrap (count + 1))

/-- `linklist_get`. -/
def linklistGet (h : Heap) (_poolId source index : Nat) : Option Nat :=
  if 0 = index then some source else getNode h.mem index chainMax source 0

theorem countNodes_spec {m : Memory} {x a fuel count : Nat} {xs : List Nat}
    (linked : Linked m a (x :: xs)) (enough : xs.length < fuel)
    (small : count + xs.length < 2 ^ 32) :
    countNodes m fuel a count = some (count + xs.length) := by
  induction xs generalizing a x fuel count with
  | nil =>
    obtain ⟨fuel, rfl⟩ : ∃ k, fuel = k + 1 := ⟨fuel - 1, by simp at enough; omega⟩
    obtain ⟨rfl, _, hend⟩ := linked
    exact if_pos (.inr hend)
  | cons y ys ih =>
    rw [List.length_cons] at enough small ⊢
    obtain ⟨fuel, rfl⟩ : ∃ k, fuel = k + 1 := ⟨fuel - 1, by omega⟩
    obtain ⟨rfl, hx, rest⟩ := linked
    have hgo : ¬ (a = null ∨ m.load32 a = null) := by
      rintro (h | h)
      · exact hx h
      · exact rest.2.1 (rest.1 ▸ h)
    have hwrap : wrap (count + 1) = count + 1 := by
      unfold wrap
      omega
    rw [countNodes, if_neg hgo, hwrap, ih rest (by omega) (by omega)]
    congr 1
    omega

/-- `linklist_count` is the length. -/
theorem linklistCount_spec {h : Heap} {source : Nat} {as : List Nat}
    (linked : Linked h.mem source as) (enough : as.length < chainMax) (poolId : Nat) :
    linklistCount h poolId source = some as.length := by
  unfold linklistCount
  cases as with
  | nil =>
    cases linked
    rfl
  | cons x xs =>
    unfold chainMax at enough
    rw [List.length_cons] at enough ⊢
    have hne : source ≠ null := linked.1 ▸ linked.2.1
    rw [if_pos hne, countNodes_spec linked (by unfold chainMax; omega) (by omega), Nat.add_comm]

theorem getNode_spec {m : Memory} {x a fuel count index : Nat} {xs : List Nat}
    (linked : Linked m a (x :: xs)) (enough : xs.length < fuel) (hi : index < xs.length)
    (small : count + xs.length < 2 ^ 32) :
    getNode m (count + 1 + index) fuel a count = some xs[index] := by
  induction xs generalizing a x fuel count index with
  | nil => exact absurd hi (Nat.not_lt_zero _)
  | cons y ys ih =>
    rw [List.length_cons] at enough hi small
    obtain ⟨fuel, rfl⟩ : ∃ k, fuel = k + 1 := ⟨fuel - 1, by omega⟩
    obtain ⟨rfl, hx, rest⟩ := linked
    have hgo : ¬ (a = null ∨ m.load32 a = null) := by
      rintro (h | h)
      · exact hx h
      · exact rest.2.1 (rest.1 ▸ h)
    have hwrap : wrap (count + 1) = count + 1 := by
      unfold wrap
      omega
    rw [getNode, if_neg hgo, hwrap]
    cases index with
    | zero =>
      rw [if_pos (by omega), rest.1]
      rfl
    | succ index =>
      rw [if_neg (by omega), show count + 1 + (index + 1) = count + 1 + 1 + index by omega,
        ih rest (by omega) (by omega) (by omega)]
      rfl

/-- `linklist_get` finds the node at an index of the list. -/
theorem linklistGet_spec {h : Heap} {source index : Nat} {as : List Nat}
    (linked : Linked h.mem source as) (enough : as.length < chainMax) (hi : index < as.length)
    (poolId : Nat) : linklistGet h poolId source index = some as[index] := by
  unfold linklistGet
  cases as with
  | nil => exact absurd hi (Nat.not_lt_zero _)
  | cons x xs =>
    unfold chainMax at enough
    rw [List.length_cons] at enough hi
    cases index with
    | zero =>
      rw [if_pos rfl, linked.1]
      rfl
    | succ index =>
      have hget : getNode h.mem (0 + 1 + index) chainMax source 0 = some xs[index] :=
        getNode_spec linked (by unfold chainMax; omega) (Nat.lt_of_succ_lt_succ hi) (by omega)
      rw [show 0 + 1 + index = index + 1 by omega] at hget
      rw [if_neg (by omega), hget]
      rfl

end Rtbus.Pool

namespace Rtbus.Emos

open Rtbus.Pool Rtbus.Tiling Rtbus.Priority

variable {H X : Type} {payloadMax : Nat}

/-- The contexts queued for a priority, read from memory. -/
def contents (s : Bus H X) (p : Nat) : List Ctx :=
  (List.range ((linklistCount s.heap poolId (s.taskTbl p)).getD 0)).map fun i =>
    readCtx s.heap.mem ((linklistGet s.heap poolId (s.taskTbl p) i).getD null)

/-- In an initialised bus they are the contexts of the queue. -/
theorem Ready.contents_eq {s : Bus H X} {bs : List Block} {q : Nat → List Node}
    (r : Ready s bs q) (p : Nat) : contents s p = (q p).map Node.ctx := by
  have nodes := r.queued.nodes p
  have enough := nodes.length_lt r.queued.valid
  unfold contents
  rw [linklistCount_spec nodes.linked enough]
  refine List.ext_getElem (by simp) fun i h₁ h₂ => ?_
  have hi : i < (q p).length := by simpa using h₂
  have hget : linklistGet s.heap poolId (s.taskTbl p) i = some _ :=
    linklistGet_spec nodes.linked enough (by simpa using hi) poolId
  rw [List.getElem_map, List.getElem_map, List.getElem_range, hget, List.getElem_map,
    Option.getD_some]
  exact (r.queued.held p _ (List.getElem_mem hi)).readCtx_eq

theorem Ready.contents_nil_iff {s : Bus H X} {bs : List Block} {q : Nat → List Node}
    (r : Ready s bs q) (p : Nat) : contents s p = [] ↔ q p = [] := by
  rw [r.contents_eq, List.map_eq_nil_iff]

/-! ## What arrives -/

/-- The post that a log entry says has returned 0, right away or with a delay of 0. -/
def LogEntry.enqueued : LogEntry H → Option PostArgs
  | .did (.post args) .ok => some args
  | .did (.postDelay args delayMs) .ok => if delayMs = 0 then some args else none
  | _ => none

/-- A log entry that is the call of a handler. -/
def LogEntry.isCall : LogEntry H → Bool
  | .called _ _ => true
  | .did _ _ => false

/-- The posts of a log that have returned 0. -/
def Log.posts (log : Log H) : List PostArgs := log.filterMap LogEntry.enqueued

/-- The number of calls of a handler. -/
def Log.calls (log : Log H) : Nat := log.countP LogEntry.isCall

/-- Accepted posts as arrivals: each context with the priority of its task. -/
def tagged (b : Backend H) (posts : List PostArgs) : List (Nat × Ctx) :=
  posts.filterMap fun args => (b.find args.taskId).map fun entry => (entry.priority.toNat, args.ctx)

@[simp] theorem tagged_append (b : Backend H) (xs ys : List PostArgs) :
    tagged b (xs ++ ys) = tagged b xs ++ tagged b ys := List.filterMap_append

@[simp] theorem Log.posts_append (xs ys : Log H) :
    Log.posts (xs ++ ys) = Log.posts xs ++ Log.posts ys := List.filterMap_append

@[simp] theorem Log.posts_called (f : H) (ctx : Ctx) (log : Log H) :
    Log.posts (.called f ctx :: log) = Log.posts log := rfl

/-- Noted acts are no calls. -/
theorem Fifo.Noted.calls_eq {acts : List Act} {log : Log H} (noted : Fifo.Noted acts log) :
    Log.calls log = 0 := by
  refine List.countP_eq_zero.mpr fun e he => ?_
  obtain ⟨i, hi, rfl⟩ := List.getElem_of_mem he
  obtain ⟨ret, hret⟩ := noted.get (i := i) (by rw [noted.length_eq]; exact hi) hi
  rw [List.get_eq_getElem] at hret
  rw [hret]
  exact Bool.false_ne_true

/-- One more event in the queue of its task. -/
theorem contents_enqueue {s s' : Bus H X} {bs bs' : List Block} {q : Nat → List Node}
    (r : Ready s bs q) {args : PostArgs} {entry : Entry H} {addr : Nat}
    (found : s.backend.find args.taskId = some entry)
    (r' : Ready s' bs' (Function.update q entry.priority.toNat
      (q entry.priority.toNat ++ [⟨addr, args.ctx⟩]))) :
    contents s' = enqueue (contents s) (tagged s.backend [args]) := by
  funext p
  rw [r'.contents_eq, enqueue_apply, r.contents_eq]
  simp only [tagged, List.filterMap_cons, found, Option.map_some, List.filterMap_nil, ofPriority]
  by_cases hp : p = entry.priority.toNat
  · subst hp
    simp
  · rw [Function.update_of_ne hp, List.filter_cons_of_neg (by simpa using fun h => hp h.symm)]
    simp

/-- A post adds what its result says. -/
theorem Posted.contents_eq {s s' : Bus H X} {bs : List Block} {q : Nat → List Node}
    (r : Ready s bs q) {args : PostArgs} {ret : Ret} (h : Posted s bs q args s' ret) :
    contents s' = enqueue (contents s) (tagged s.backend (if ret = .ok then [args] else [])) := by
  rcases h.2 with ⟨_, ⟨e, rfl⟩, _, r'⟩ | ⟨bs', entry, addr, _, rfl, found, r'⟩
  · funext p
    rw [if_neg (by simp), show tagged s.backend [] = [] from rfl, enqueue_nil, r'.contents_eq,
      r.contents_eq]
  · rw [if_pos rfl]
    exact contents_enqueue r found r'

end Rtbus.Emos
