import Mathlib.Data.List.Chain

/-!
# Ranges tiled by blocks with headers

An allocator with in-band headers divides the range it has handed out into blocks that follow each
other without gaps: a header of a fixed size, then the payload. `Block` is one such block, a list
of them from an address on is a tiling, and `payloads` is the list of the busy blocks' payload
ranges in address order. The facts here are about the list alone; an allocator proves what its
header words say about it.

`payloads_pairwise` is the one everybody wants: payloads do not overlap each other, and there is
room for a header between any two. `Coalesced` is the normal form that eager merging keeps.
-/

namespace Rtbus.Tiling

/-- A block: whether it is handed out, and the size of its payload. -/
structure Block where
  busy : Bool
  size : Nat
  deriving DecidableEq, Repr

variable (hdr : Nat)

/-- The number of bytes that a list of blocks takes, headers included. -/
def extent : List Block → Nat
  | [] => 0
  | b :: bs => hdr + b.size + extent bs

/-- The payload ranges of the busy blocks from address `a` on, as address and size. -/
def payloads (a : Nat) : List Block → List (Nat × Nat)
  | [] => []
  | b :: bs =>
    if b.busy then (a + hdr, b.size) :: payloads (a + hdr + b.size) bs
    else payloads (a + hdr + b.size) bs

/-- No two neighbours are both free, and the last block is busy. -/
def Coalesced (bs : List Block) : Prop :=
  bs.IsChain (fun b c => b.busy = true ∨ c.busy = true) ∧ ∀ b ∈ bs.getLast?, b.busy = true

variable {hdr}

@[simp] theorem extent_nil : extent hdr [] = 0 := rfl

@[simp] theorem extent_cons (b : Block) (bs : List Block) :
    extent hdr (b :: bs) = hdr + b.size + extent hdr bs := rfl

theorem extent_append (xs ys : List Block) : extent hdr (xs ++ ys) = extent hdr xs + extent hdr ys := by
  induction xs with
  | nil => exact (Nat.zero_add _).symm
  | cons x xs ih => simp only [List.cons_append, extent_cons, ih, Nat.add_assoc]

/-- Every block takes at least its header. -/
theorem length_mul_le_extent (bs : List Block) : bs.length * hdr ≤ extent hdr bs := by
  induction bs with
  | nil => simp
  | cons b bs ih =>
    simp only [List.length_cons, extent_cons, Nat.add_mul, Nat.one_mul]
    omega

@[simp] theorem payloads_nil (a : Nat) : payloads hdr a [] = [] := rfl

theorem payloads_cons_busy (a size : Nat) (bs : List Block) :
    payloads hdr a (⟨true, size⟩ :: bs) = (a + hdr, size) :: payloads hdr (a + hdr + size) bs := rfl

theorem payloads_cons_free (a size : Nat) (bs : List Block) :
    payloads hdr a (⟨false, size⟩ :: bs) = payloads hdr (a + hdr + size) bs := rfl

theorem payloads_append (a : Nat) (xs ys : List Block) :
    payloads hdr a (xs ++ ys) = payloads hdr a xs ++ payloads hdr (a + extent hdr xs) ys := by
  induction xs generalizing a with
  | nil => rfl
  | cons x xs ih =>
    simp only [List.cons_append, payloads, extent_cons, ih]
    rw [show a + (hdr + x.size + extent hdr xs) = a + hdr + x.size + extent hdr xs by omega]
    split
    · rfl
    · rfl

/-- A payload lies inside the tiled range, behind the first header. -/
theorem payloads_range {a : Nat} {bs : List Block} {p : Nat × Nat} (h : p ∈ payloads hdr a bs) :
    a + hdr ≤ p.1 ∧ p.1 + p.2 ≤ a + extent hdr bs := by
  induction bs generalizing a with
  | nil => cases h
  | cons b bs ih =>
    simp only [payloads] at h
    have tail : p ∈ payloads hdr (a + hdr + b.size) bs → a + hdr ≤ p.1 ∧
        p.1 + p.2 ≤ a + extent hdr (b :: bs) := by
      intro h
      obtain ⟨lo, hi⟩ := ih h
      simp only [extent_cons]
      omega
    split at h
    · rcases List.mem_cons.mp h with rfl | h
      · simp only [extent_cons]
        omega
      · exact tail h
    · exact tail h

/-- A payload belongs to a busy block, and starts behind the header of that block. -/
theorem mem_payloads {a : Nat} {bs : List Block} {p : Nat × Nat} (h : p ∈ payloads hdr a bs) :
    ∃ pre post, bs = pre ++ ⟨true, p.2⟩ :: post ∧ p.1 = a + extent hdr pre + hdr := by
  induction bs generalizing a with
  | nil => cases h
  | cons b bs ih =>
    have tail : p ∈ payloads hdr (a + hdr + b.size) bs → ∃ pre post,
        b :: bs = pre ++ ⟨true, p.2⟩ :: post ∧ p.1 = a + extent hdr pre + hdr := by
      intro h
      obtain ⟨pre, post, rfl, hp⟩ := ih h
      exact ⟨b :: pre, post, rfl, by rw [hp, extent_cons]; omega⟩
    obtain ⟨busy, size⟩ := b
    cases busy with
    | false => exact tail h
    | true =>
      rcases List.mem_cons.mp h with rfl | h
      · exact ⟨[], bs, rfl, rfl⟩
      · exact tail h

/-- Payloads come in address order with room for a header between any two. -/
theorem payloads_pairwise (a : Nat) (bs : List Block) :
    (payloads hdr a bs).Pairwise fun p q => p.1 + p.2 + hdr ≤ q.1 := by
  induction bs generalizing a with
  | nil => exact List.Pairwise.nil
  | cons b bs ih =>
    simp only [payloads]
    split
    · refine List.Pairwise.cons (fun q hq => ?_) (ih _)
      have := (payloads_range hq).1
      omega
    · exact ih _

/-- Without a busy block there is no payload, and conversely. -/
theorem payloads_eq_nil_iff (a : Nat) (bs : List Block) :
    payloads hdr a bs = [] ↔ ∀ b ∈ bs, b.busy = false := by
  induction bs generalizing a with
  | nil => simp
  | cons b bs ih =>
    simp only [payloads, List.mem_cons, forall_eq_or_imp]
    cases hb : b.busy with
    | true => simp
    | false => simpa using ih _

theorem coalesced_nil : Coalesced [] := ⟨.nil, by simp⟩

/-- A coalesced tiling with no busy block is empty. -/
theorem Coalesced.eq_nil {bs : List Block} (h : Coalesced bs) (free : ∀ b ∈ bs, b.busy = false) :
    bs = [] := by
  cases hl : bs.getLast? with
  | none => exact List.getLast?_eq_none_iff.mp hl
  | some b =>
    have hbusy := h.2 b hl
    rw [free b (List.mem_of_getLast? hl)] at hbusy
    cases hbusy

/-- Where a coalesced tiling is cut before a block, both parts are in normal form and the blocks at
the cut are not both free. -/
theorem coalesced_append_cons {xs ys : List Block} {y : Block} :
    Coalesced (xs ++ y :: ys) ↔
      xs.IsChain (fun b c => b.busy = true ∨ c.busy = true) ∧ Coalesced (y :: ys) ∧
        ∀ x ∈ xs.getLast?, x.busy = true ∨ y.busy = true := by
  unfold Coalesced
  rw [List.isChain_append, List.getLast?_append_of_ne_nil _ (List.cons_ne_nil y ys)]
  simp only [List.head?_cons, Option.mem_def, Option.some.injEq, forall_eq']
  constructor
  · rintro ⟨⟨hx, hy, hxy⟩, hl⟩
    exact ⟨hx, ⟨hy, hl⟩, hxy⟩
  · rintro ⟨hx, ⟨hy, hl⟩, hxy⟩
    exact ⟨⟨hx, hy, hxy⟩, hl⟩

/-- A busy block behind a coalesced tiling. -/
theorem Coalesced.snoc {bs : List Block} (h : Coalesced bs) (size : Nat) :
    Coalesced (bs ++ [⟨true, size⟩]) :=
  coalesced_append_cons.mpr ⟨h.1, ⟨.singleton _, by simp⟩, fun _ _ => .inr rfl⟩

theorem coalesced_cons_busy {size : Nat} {ys : List Block} :
    Coalesced (⟨true, size⟩ :: ys) ↔ Coalesced ys := by
  cases ys with
  | nil => simp [Coalesced]
  | cons y ys => simp [Coalesced, List.isChain_cons_cons]

/-- Behind a free block comes a busy one. -/
theorem coalesced_cons_free {size : Nat} {ys : List Block} :
    Coalesced (⟨false, size⟩ :: ys) ↔ ∃ s zs, ys = ⟨true, s⟩ :: zs ∧ Coalesced ys := by
  cases ys with
  | nil => simp [Coalesced]
  | cons y ys =>
    obtain ⟨busy, s⟩ := y
    cases busy with
    | false => simp [Coalesced, List.isChain_cons_cons]
    | true => simp [Coalesced, List.isChain_cons_cons]

/-- A free block between a coalesced tiling and one that starts with a busy block. -/
theorem Coalesced.join {xs ys : List Block} {size t : Nat} (hx : Coalesced xs)
    (hy : Coalesced (⟨true, t⟩ :: ys)) : Coalesced (xs ++ ⟨false, size⟩ :: ⟨true, t⟩ :: ys) :=
  coalesced_append_cons.mpr
    ⟨hx.1, coalesced_cons_free.mpr ⟨t, ys, rfl, hy⟩, fun x h => .inl (hx.2 x h)⟩

/-- What stands before a free block is coalesced by itself. -/
theorem Coalesced.before_free {xs ys : List Block} {size : Nat}
    (h : Coalesced (xs ++ ⟨false, size⟩ :: ys)) : Coalesced xs := by
  obtain ⟨chain, _, joint⟩ := coalesced_append_cons.mp h
  refine ⟨chain, fun x hx => ?_⟩
  simpa using joint x hx

/-- What stands behind a free block starts with a busy one and is coalesced. -/
theorem Coalesced.behind_free {xs ys : List Block} {size : Nat}
    (h : Coalesced (xs ++ ⟨false, size⟩ :: ys)) : ∃ t zs, ys = ⟨true, t⟩ :: zs ∧ Coalesced ys :=
  coalesced_cons_free.mp (coalesced_append_cons.mp h).2.1

/-- What stands behind a busy block is coalesced. -/
theorem Coalesced.behind_busy {xs ys : List Block} {size : Nat}
    (h : Coalesced (xs ++ ⟨true, size⟩ :: ys)) : Coalesced ys :=
  coalesced_cons_busy.mp (coalesced_append_cons.mp h).2.1

end Rtbus.Tiling
