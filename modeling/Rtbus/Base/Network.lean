import Rtbus.Base.Program

/-!
# Two parties and the channels between them

Two parties run side by side. Each takes what it needs from the front of its input channel, waits if
that is not there yet, and appends what it says to the channel of the other. As long as neither does
anything else when more is waiting for it, the order in which the two move does not matter: if one
run comes to an end, every run comes to the same end in the same number of steps
(`Steps.every_run`), and it suffices to follow one of them.

An `Agent` is a party that runs a program. What a piece of the program does by itself, as `Prog.run`
says it, are steps of the two (`Agent.reaches_left`, `Agent.reaches_right`).
-/

namespace Rtbus.Network

section Confluence

variable {σ : Type _} {r : σ → σ → Prop}

/-- A run of a number of steps. -/
inductive Steps (r : σ → σ → Prop) : Nat → σ → σ → Prop
  | zero (c : σ) : Steps r 0 c c
  | succ {n : Nat} {c c' d : σ} : r c c' → Steps r n c' d → Steps r (n + 1) c d

/-- Two steps from one state lead to the same state, or can be followed by steps that do. -/
def Diamond (r : σ → σ → Prop) : Prop :=
  ∀ c c₁ c₂, r c c₁ → r c c₂ → c₁ = c₂ ∨ ∃ c₃, r c₁ c₃ ∧ r c₂ c₃

/-- Nothing can happen. -/
def Stuck (r : σ → σ → Prop) (c : σ) : Prop := ∀ c', ¬ r c c'

theorem Steps.trans {n k : Nat} {c d e : σ} (h : Steps r n c d) (h' : Steps r k d e) :
    Steps r (n + k) c e := by
  induction h with
  | zero => rwa [Nat.zero_add]
  | succ step _ ih =>
    rw [Nat.succ_add]
    exact .succ step (ih h')

/-- No step leads away from the end of a run. -/
theorem Steps.after_step (diamond : Diamond r) {n : Nat} {c c' d : σ} (h : Steps r n c d)
    (stuck : Stuck r d) (step : r c c') : ∃ m, n = m + 1 ∧ Steps r m c' d := by
  induction h generalizing c' with
  | zero => exact absurd step (stuck c')
  | @succ n c c₁ d first rest ih =>
    rcases diamond c c₁ c' first step with rfl | ⟨c₃, step₁, step'⟩
    · exact ⟨n, rfl, rest⟩
    · obtain ⟨m, rfl, hrest⟩ := ih stuck step₁
      exact ⟨m + 1, rfl, .succ step' hrest⟩

/-- If one run comes to an end, every run is a beginning of one that comes to this end after as many
steps. -/
theorem Steps.every_run (diamond : Diamond r) {n k : Nat} {c d e : σ} (h : Steps r n c d)
    (stuck : Stuck r d) (run : Steps r k c e) : ∃ m, n = k + m ∧ Steps r m e d := by
  induction run generalizing n with
  | zero => exact ⟨n, (Nat.zero_add n).symm, h⟩
  | succ step _ ih =>
    obtain ⟨m, rfl, hrest⟩ := h.after_step diamond stuck step
    obtain ⟨k, rfl, hend⟩ := ih hrest
    exact ⟨k, by omega, hend⟩

/-- There is a run. -/
def Reaches (r : σ → σ → Prop) (c d : σ) : Prop := ∃ n, Steps r n c d

theorem Reaches.refl (c : σ) : Reaches r c c := ⟨0, .zero c⟩

theorem Reaches.trans {c d e : σ} (h : Reaches r c d) (h' : Reaches r d e) : Reaches r c e := by
  obtain ⟨n, hn⟩ := h
  obtain ⟨k, hk⟩ := h'
  exact ⟨n + k, hn.trans hk⟩

theorem Reaches.head {c d e : σ} (step : r c d) (h : Reaches r d e) : Reaches r c e := by
  obtain ⟨n, hn⟩ := h
  exact ⟨n + 1, .succ step hn⟩

end Confluence

section Parties

variable {σ τ α β : Type _}

/-- What a party does next with what is on its input channel: its state then, what is left of the
input, and what it says; `none` if it waits or has ended. -/
abbrev Party (σ α β : Type _) := σ → List α → Option (σ × List α × List β)

/-- A party does not do anything else when more is waiting for it. -/
def Party.Monotone (p : Party σ α β) : Prop :=
  ∀ s i s' i' out, p s i = some (s', i', out) → ∀ more, p s (i ++ more) = some (s', i' ++ more, out)

/-- Both parties, and the channels to them. -/
structure Config (σ τ α β : Type _) where
  left : σ
  right : τ
  toLeft : List α
  toRight : List β

/-- One of the two moves. -/
inductive Step (L : Party σ α β) (R : Party τ β α) : Config σ τ α β → Config σ τ α β → Prop
  | left {s s' : σ} {t : τ} {i i' : List α} {j out : List β} (move : L s i = some (s', i', out)) :
      Step L R ⟨s, t, i, j⟩ ⟨s', t, i', j ++ out⟩
  | right {s : σ} {t t' : τ} {i out : List α} {j j' : List β} (move : R t j = some (t', j', out)) :
      Step L R ⟨s, t, i, j⟩ ⟨s, t', i ++ out, j'⟩

/-- The parties do not get into each other's way. -/
theorem step_diamond {L : Party σ α β} {R : Party τ β α} (monoL : L.Monotone) (monoR : R.Monotone) :
    Diamond (Step L R) := by
  intro c c₁ c₂ h₁ h₂
  cases h₁ with
  | left move₁ =>
    cases h₂ with
    | left move₂ =>
      rw [move₁] at move₂
      cases move₂
      exact .inl rfl
    | right move₂ => exact .inr ⟨_, .right (monoR _ _ _ _ _ move₂ _), .left (monoL _ _ _ _ _ move₁ _)⟩
  | right move₁ =>
    cases h₂ with
    | left move₂ => exact .inr ⟨_, .left (monoL _ _ _ _ _ move₂ _), .right (monoR _ _ _ _ _ move₁ _)⟩
    | right move₂ =>
      rw [move₁] at move₂
      cases move₂
      exact .inl rfl

/-- Neither moves. -/
theorem step_stuck {L : Party σ α β} {R : Party τ β α} {s : σ} {t : τ} {i : List α} {j : List β}
    (left : L s i = none) (right : R t j = none) : Stuck (Step L R) ⟨s, t, i, j⟩ := by
  intro c' step
  cases step with
  | left move =>
    rw [left] at move
    cases move
  | right move =>
    rw [right] at move
    cases move

end Parties

/-- A party that runs a program, whose loop has the given body. `act` is what an operation answers,
the state it leaves, what is left of the input, and what it says. `pause` is what an operation does
before it looks at the input, if it does anything then. -/
structure Agent (I : Interface) (V ρ σ α β : Type _) where
  pause : I.Op → σ → Option (σ × List β)
  act : (o : I.Op) → σ → List α → Option (I.Answer o × σ × List α × List β)
  body : V → Prog I (V ⊕ ρ)

namespace Agent

variable {I : Interface} {V ρ ρ' σ τ α β : Type}

/-- An operation that has been answered is not answered otherwise when more is waiting. -/
def Monotone (A : Agent I V ρ σ α β) : Prop :=
  ∀ o s i a s' i' out, A.act o s i = some (a, s', i', out) →
    ∀ more, A.act o s (i ++ more) = some (a, s', i' ++ more, out)

/-- What an operation does next, and what the program does behind it. -/
def perform (A : Agent I V ρ σ α β) (o : I.Op) (k : I.Answer o → Prog I (V ⊕ ρ)) (s : σ)
    (i : List α) : Option ((Prog I (V ⊕ ρ) × σ) × List α × List β) :=
  match A.pause o s with
  | some (s', out) => some ((.vis o k, s'), i, out)
  | none => (A.act o s i).map fun r => ((k r.1, r.2.1), r.2.2.1, r.2.2.2)

/-- The party: it runs its program, and turn after turn the body of its loop. -/
def party (A : Agent I V ρ σ α β) : Party (Prog I (V ⊕ ρ) × σ) α β
  | (.pure (.inl v), s), i => some ((A.body v, s), i, [])
  | (.pure (.inr _), _), _ => none
  | (.vis o k, s), i => A.perform o k s i

/-- The operations on the state and both channels. -/
def server (A : Agent I V ρ σ α β) : Prog.Server I (σ × List α × List β) := fun o w =>
  if A.pause o w.1 = none then
    (A.act o w.1 w.2.1).map fun r => (r.1, r.2.1, r.2.2.1, w.2.2 ++ r.2.2.2)
  else none

theorem server_eq_some {A : Agent I V ρ σ α β} {o : I.Op} {w : σ × List α × List β}
    {r : I.Answer o × σ × List α × List β} (h : A.server o w = some r) :
    ∃ out, A.pause o w.1 = none ∧ A.act o w.1 w.2.1 = some (r.1, r.2.1, r.2.2.1, out) ∧
      r.2.2.2 = w.2.2 ++ out := by
  unfold server at h
  split at h
  · rename_i hpause
    obtain ⟨⟨a, s, i, out⟩, hact, rfl⟩ := Option.map_eq_some_iff.mp h
    exact ⟨out, hpause, hact, rfl⟩
  · cases h

theorem party_monotone {A : Agent I V ρ σ α β} (mono : A.Monotone) : A.party.Monotone := by
  rintro ⟨p, s⟩ i ⟨p', s'⟩ i' out h more
  cases p with
  | pure r =>
    cases r with
    | inl v =>
      cases h
      rfl
    | inr r => cases h
  | vis o k =>
    change A.perform o k s i = _ at h
    show A.perform o k s (i ++ more) = _
    unfold perform at h ⊢
    cases hpause : A.pause o s with
    | some said =>
      rw [hpause] at h
      cases h
      rfl
    | none =>
      rw [hpause] at h
      obtain ⟨⟨a, s₁, i₁, out₁⟩, hact, heq⟩ := Option.map_eq_some_iff.mp h
      cases heq
      dsimp only
      rw [mono o s i a s₁ i₁ out₁ hact more]
      rfl

variable {s s' : σ} {t : τ} {i i' : List α} {j j' : List β}

/-- An operation that is answered is a move of the party. -/
theorem move_of_server {A : Agent I V ρ σ α β} {o : I.Op} {a : I.Answer o}
    (h : A.server o (s, i, j) = some (a, s', i', j')) (k : I.Answer o → Prog I (V ⊕ ρ)) :
    ∃ out, A.party (.vis o k, s) i = some ((k a, s'), i', out) ∧ j' = j ++ out := by
  obtain ⟨out, hpause, hact, hout⟩ := server_eq_some h
  refine ⟨out, ?_, hout⟩
  show A.perform o k s i = _
  unfold perform
  rw [hpause, hact]
  rfl

/-- What a piece of a program does by itself, the left party does step by step. -/
theorem reaches_left {A : Agent I V ρ σ α β} {R : Party τ β α} {p : Prog I ρ'} {r : ρ'}
    (h : p.run A.server (s, i, j) = some (r, s', i', j')) (k : ρ' → Prog I (V ⊕ ρ)) :
    Reaches (Step A.party R) ⟨(p >>= k, s), t, i, j⟩ ⟨(k r, s'), t, i', j'⟩ := by
  induction p generalizing s i j with
  | pure r' =>
    cases h
    exact .refl _
  | vis o answer ih =>
    obtain ⟨⟨a, s₁, i₁, j₁⟩, hserve, hrest⟩ := Option.bind_eq_some_iff.mp h
    obtain ⟨out, move, rfl⟩ := move_of_server hserve fun a => answer a >>= k
    exact .head (.left move) (ih a hrest)

/-- The right party likewise. -/
theorem reaches_right {A : Agent I V ρ σ α β} {L : Party τ β α} {p : Prog I ρ'} {r : ρ'}
    (h : p.run A.server (s, i, j) = some (r, s', i', j')) (k : ρ' → Prog I (V ⊕ ρ)) :
    Reaches (Step L A.party) ⟨t, (p >>= k, s), j, i⟩ ⟨t, (k r, s'), j', i'⟩ := by
  induction p generalizing s i j with
  | pure r' =>
    cases h
    exact .refl _
  | vis o answer ih =>
    obtain ⟨⟨a, s₁, i₁, j₁⟩, hserve, hrest⟩ := Option.bind_eq_some_iff.mp h
    obtain ⟨out, move, rfl⟩ := move_of_server hserve fun a => answer a >>= k
    exact .head (.right move) (ih a hrest)

/-- The left party begins another turn of its loop. -/
theorem again_left {A : Agent I V ρ σ α β} {R : Party τ β α} (v : V) :
    Reaches (Step A.party R) ⟨(.pure (.inl v), s), t, i, j⟩ ⟨(A.body v, s), t, i, j⟩ := by
  have step : Step A.party R ⟨(.pure (.inl v), s), t, i, j⟩ ⟨(A.body v, s), t, i, j ++ []⟩ :=
    .left rfl
  rw [List.append_nil] at step
  exact .head step (.refl _)

/-- The right party comes to the end of its program. -/
theorem ends_right {A : Agent I V ρ σ α β} {L : Party τ β α} {p : Prog I (V ⊕ ρ)} {r : V ⊕ ρ}
    (h : p.run A.server (s, i, j) = some (r, s', i', j')) :
    Reaches (Step L A.party) ⟨t, (p, s), j, i⟩ ⟨t, (.pure r, s'), j', i'⟩ := by
  have rest := reaches_right (L := L) (t := t) h .pure
  rwa [show (p >>= Prog.pure) = p from Prog.bind_pure _] at rest

/-- It begins another turn of its loop. -/
theorem again_right {A : Agent I V ρ σ α β} {L : Party τ β α} (v : V) :
    Reaches (Step L A.party) ⟨t, (.pure (.inl v), s), j, i⟩ ⟨t, (A.body v, s), j, i⟩ := by
  have step : Step L A.party ⟨t, (.pure (.inl v), s), j, i⟩ ⟨t, (A.body v, s), j ++ [], i⟩ :=
    .right rfl
  rw [List.append_nil] at step
  exact .head step (.refl _)

/-- The right party makes a turn of its loop. -/
theorem turn_right {A : Agent I V ρ σ α β} {L : Party τ β α} {v : V} {r : V ⊕ ρ}
    (h : (A.body v).run A.server (s, i, j) = some (r, s', i', j')) :
    Reaches (Step L A.party) ⟨t, (.pure (.inl v), s), j, i⟩ ⟨t, (.pure r, s'), j', i'⟩ :=
  (again_right v).trans (ends_right h)

/-- The right party says something before it looks at its input. -/
theorem pause_right {A : Agent I V ρ σ α β} {L : Party τ β α} {o : I.Op}
    {k : I.Answer o → Prog I (V ⊕ ρ)} {out : List β} (h : A.pause o s = some (s', out)) :
    Step L A.party ⟨t, (.vis o k, s), j, i⟩ ⟨t, (.vis o k, s'), j ++ out, i⟩ := by
  refine .right ?_
  show A.perform o k s i = _
  unfold perform
  rw [h]

/-- A property of the agent's own state that its operations keep. -/
structure Keeps (A : Agent I V ρ σ α β) (K : σ → Prop) : Prop where
  pause : ∀ o s s' out, A.pause o s = some (s', out) → K s → K s'
  act : ∀ o s i a s' i' out, A.act o s i = some (a, s', i', out) → K s → K s'

theorem Keeps.party {A : Agent I V ρ σ α β} {K : σ → Prop} (keeps : A.Keeps K)
    {p p' : Prog I (V ⊕ ρ)} {out : List β} (h : A.party (p, s) i = some ((p', s'), i', out))
    (hs : K s) : K s' := by
  cases p with
  | pure r =>
    cases r with
    | inl v =>
      cases h
      exact hs
    | inr r => cases h
  | vis o k =>
    change A.perform o k s i = _ at h
    unfold perform at h
    cases hpause : A.pause o s with
    | some said =>
      obtain ⟨s₁, out₁⟩ := said
      rw [hpause] at h
      cases h
      exact keeps.pause _ _ _ _ hpause hs
    | none =>
      rw [hpause] at h
      obtain ⟨⟨a, s₁, i₁, out₁⟩, hact, heq⟩ := Option.map_eq_some_iff.mp h
      cases heq
      exact keeps.act _ _ _ _ _ _ _ hact hs

/-- Whatever the other party does, the property holds along every run. -/
theorem Keeps.steps_right {A : Agent I V ρ σ α β} {K : σ → Prop} (keeps : A.Keeps K)
    {L : Party τ β α} {n : Nat} {c d : Config τ (Prog I (V ⊕ ρ) × σ) β α}
    (run : Steps (Step L A.party) n c d) (hc : K c.right.2) : K d.right.2 := by
  induction run with
  | zero => exact hc
  | succ step _ ih =>
    refine ih ?_
    cases step with
    | left _ => exact hc
    | right move => exact keeps.party move hc

end Agent

end Rtbus.Network
