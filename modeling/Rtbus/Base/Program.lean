/-!
# Programs over an interface

A function that talks to its surroundings is a tree of the operations that it asks for: a leaf is
its result, a node is an operation with what the function does for each answer. What an operation
does is said by a handler, and one program may be run under several.

`Prog.wp` is what a program establishes under a handler that is a relation: whatever each operation
answers, the result and the last state are as demanded. `Prog.run` runs it under a handler that is a
function, which may have no answer yet. `Prog.repeatFor` is a loop of the source, whose body says
whether it goes on.
-/

namespace Rtbus

/-- Operations, and what each of them answers. -/
structure Interface where
  Op : Type
  Answer : Op → Type

/-- A program with its result. -/
inductive Prog (I : Interface) (ρ : Type)
  | pure (r : ρ)
  | vis (o : I.Op) (k : I.Answer o → Prog I ρ)

namespace Prog

variable {I : Interface} {ρ ρ' σ V : Type}

/-- One program after another. -/
def bind (p : Prog I ρ) (k : ρ → Prog I ρ') : Prog I ρ' :=
  match p with
  | .pure r => k r
  | .vis o answer => .vis o fun a => (answer a).bind k

instance : Monad (Prog I) where
  pure := .pure
  bind := bind

theorem bind_pure (p : Prog I ρ) : p.bind .pure = p := by
  induction p with
  | pure r => rfl
  | vis o answer ih => exact congrArg (vis o) (funext ih)

theorem bind_bind {ρ'' : Type} (p : Prog I ρ) (k : ρ → Prog I ρ') (k' : ρ' → Prog I ρ'') :
    (p.bind k).bind k' = p.bind fun r => (k r).bind k' := by
  induction p with
  | pure r => rfl
  | vis o answer ih => exact congrArg (vis o) (funext ih)

instance : LawfulMonad (Prog I) :=
  LawfulMonad.mk' (Prog I) bind_pure (fun _ _ => rfl) bind_bind

/-- An operation on its own. -/
def perform (o : I.Op) : Prog I (I.Answer o) := .vis o .pure

/-- A handler that says what an operation may answer, and the state it may leave. -/
abbrev Handler (I : Interface) (σ : Type) := (o : I.Op) → σ → I.Answer o → σ → Prop

/-- A handler that computes the answer, if there is one. -/
abbrev Server (I : Interface) (σ : Type) := (o : I.Op) → σ → Option (I.Answer o × σ)

/-- A server as a handler. -/
def Server.handler (serve : Server I σ) : Handler I σ := fun o s a s' => serve o s = some (a, s')

/-- Whatever the operations answer, the program ends as `Q` says. -/
def wp (H : Handler I σ) : Prog I ρ → (ρ → σ → Prop) → σ → Prop
  | .pure r, Q, s => Q r s
  | .vis o k, Q, s => ∀ a s', H o s a s' → wp H (k a) Q s'

/-- The program run by a server; `none` if an operation has no answer. -/
def run (serve : Server I σ) : Prog I ρ → σ → Option (ρ × σ)
  | .pure r, s => some (r, s)
  | .vis o k, s => (serve o s).bind fun x => (k x.1).run serve x.2

/-- A loop of at most `fuel` turns; `none` if it has not ended by then. -/
def repeatFor (serve : Server I σ) (body : V → Prog I (V ⊕ ρ)) : Nat → V → σ → Option (ρ × σ)
  | 0, _, _ => none
  | fuel + 1, v, s =>
    ((body v).run serve s).bind fun x =>
      match x.1 with
      | .inl v' => repeatFor serve body fuel v' x.2
      | .inr r => some (r, x.2)

section Wp

variable {H : Handler I σ}

@[simp] theorem wp_pure (r : ρ) (Q : ρ → σ → Prop) (s : σ) :
    wp H (Pure.pure r : Prog I ρ) Q s ↔ Q r s := Iff.rfl

@[simp] theorem wp_perform (o : I.Op) (Q : I.Answer o → σ → Prop) (s : σ) :
    wp H (perform o) Q s ↔ ∀ a s', H o s a s' → Q a s' := Iff.rfl

@[simp] theorem wp_bind (p : Prog I ρ) (k : ρ → Prog I ρ') (Q : ρ' → σ → Prop) (s : σ) :
    wp H (p >>= k) Q s ↔ wp H p (fun r s => wp H (k r) Q s) s := by
  show wp H (p.bind k) Q s ↔ _
  induction p generalizing s with
  | pure r => exact Iff.rfl
  | vis o answer ih => exact forall_congr' fun a => forall_congr' fun s' => imp_congr_right fun _ => ih a s'

/-- An operation that a server answers. -/
theorem wp_perform_server (serve : Server I σ) (o : I.Op) {a : I.Answer o} {s s' : σ}
    (h : serve o s = some (a, s')) (Q : I.Answer o → σ → Prop) :
    wp serve.handler (perform o) Q s ↔ Q a s' := by
  constructor
  · intro hQ
    exact hQ a s' h
  · intro hQ a₁ s₁ h₁
    have hsame : serve o s = some (a₁, s₁) := h₁
    rw [h] at hsame
    cases hsame
    exact hQ

end Wp

section Run

variable {serve : Server I σ}

@[simp] theorem run_perform (o : I.Op) (s : σ) : (perform o).run serve s = serve o s := by
  show (serve o s).bind (fun x => some (x.1, x.2)) = serve o s
  cases serve o s <;> rfl

@[simp] theorem run_bind (p : Prog I ρ) (k : ρ → Prog I ρ') (s : σ) :
    (p >>= k).run serve s = (p.run serve s).bind fun x => (k x.1).run serve x.2 := by
  show (p.bind k).run serve s = _
  induction p generalizing s with
  | pure r => rfl
  | vis o answer ih =>
    show (serve o s).bind _ = ((serve o s).bind _).bind _
    cases serve o s with
    | none => rfl
    | some x => exact ih x.1 x.2

/-- What a program establishes holds of its run. -/
theorem wp_run {p : Prog I ρ} {Q : ρ → σ → Prop} {s s' : σ} {r : ρ}
    (h : wp serve.handler p Q s) (hrun : p.run serve s = some (r, s')) : Q r s' := by
  induction p generalizing s with
  | pure r' =>
    cases hrun
    exact h
  | vis o answer ih =>
    obtain ⟨⟨a, s₁⟩, ha, hrest⟩ := Option.bind_eq_some_iff.mp hrun
    exact ih a (h a s₁ ha) hrest

/-- A program runs to its end if its operations are always answered. -/
theorem run_isSome (answered : ∀ o s, (serve o s).isSome = true) (p : Prog I ρ) (s : σ) :
    (p.run serve s).isSome = true := by
  induction p generalizing s with
  | pure r => rfl
  | vis o answer ih =>
    obtain ⟨x, hx⟩ := Option.isSome_iff_exists.mp (answered o s)
    show ((serve o s).bind _).isSome = true
    rw [hx]
    exact ih x.1 x.2

/-- What a program establishes, it establishes for the run that it has. -/
theorem exists_run (answered : ∀ o s, (serve o s).isSome = true) {p : Prog I ρ}
    {Q : ρ → σ → Prop} {s : σ} (h : wp serve.handler p Q s) :
    ∃ r s', p.run serve s = some (r, s') ∧ Q r s' := by
  obtain ⟨⟨r, s'⟩, hrun⟩ := Option.isSome_iff_exists.mp (run_isSome answered p s)
  exact ⟨r, s', hrun, wp_run h hrun⟩

/-- A loop whose turns keep an invariant and come closer to the end ends, as its last turn says,
whatever the number of turns that it is given, if they are enough. -/
theorem repeatFor_total (answered : ∀ o s, (serve o s).isSome = true)
    {body : V → Prog I (V ⊕ ρ)} {J : V → σ → Prop} {Q : ρ → σ → Prop} (rank : V → σ → Nat)
    (turn : ∀ v s, J v s → wp serve.handler (body v)
      (Sum.elim (fun v' s' => J v' s' ∧ rank v' s' < rank v s) Q) s) {v : V} {s : σ} (inv : J v s) :
    ∃ r s', (∀ fuel, rank v s < fuel → repeatFor serve body fuel v s = some (r, s')) ∧ Q r s' := by
  induction hn : rank v s using Nat.strongRecOn generalizing v s with
  | ind n ih =>
    obtain ⟨out, s₁, hbody, post⟩ := exists_run answered (turn v s inv)
    have next : ∀ fuel, n < fuel → ∃ left, fuel = left + 1 ∧ n ≤ left :=
      fun fuel h => ⟨fuel - 1, by omega, by omega⟩
    cases out with
    | inl v' =>
      obtain ⟨inv', less⟩ := post
      obtain ⟨r, s', hrest, hQ⟩ := ih (rank v' s₁) (hn ▸ less) inv' rfl
      refine ⟨r, s', fun fuel h => ?_, hQ⟩
      obtain ⟨left, rfl, hleft⟩ := next fuel h
      unfold repeatFor
      rw [hbody]
      exact hrest left (by omega)
    | inr r =>
      refine ⟨r, s₁, fun fuel h => ?_, post⟩
      obtain ⟨left, rfl, _⟩ := next fuel h
      unfold repeatFor
      rw [hbody]
      rfl

end Run

end Prog

end Rtbus
