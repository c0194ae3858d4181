import Mathlib.Data.List.Basic
import Mathlib.Data.List.Induction

/-!
# Runs of a step function

A machine is a step function: from a state and an input it gives the next state
and what the step puts out. A run feeds a list of inputs, oldest first.

Two ways of speaking about a run are developed. `Along` says that a relation
between the state before a step and its input holds at every step; it expresses
both what the environment promises and what a run satisfies. `invariant` and
`invariant_outputs` are the induction rules: what every step preserves holds at
the end of every run, for the state alone and for the state together with
everything put out so far. `simulation` is the rule for two runs side by side.
-/

set_option autoImplicit false

namespace VoiceChat

universe u v w

/-- A step function with outputs. -/
structure Machine (σ : Type u) (ι : Type v) (ο : Type w) where
  /-- What one input does to the state, and what the step puts out. -/
  step : σ → ι → σ × List ο

namespace Machine

variable {σ : Type u} {ι : Type v} {ο : Type w} (M : Machine σ ι ο)

/-- The state after a list of inputs. -/
def run (s : σ) : List ι → σ
  | [] => s
  | i :: rest => run (M.step s i).1 rest

/-- Everything put out during a list of inputs, oldest first. -/
def outputs (s : σ) : List ι → List ο
  | [] => []
  | i :: rest => (M.step s i).2 ++ outputs (M.step s i).1 rest

/-- A relation between the state before a step and its input, at every step of
a run. -/
def Along (P : σ → ι → Prop) (s : σ) : List ι → Prop
  | [] => True
  | i :: rest => P s i ∧ Along P (M.step s i).1 rest

instance Along.decidable (P : σ → ι → Prop) [∀ s i, Decidable (P s i)] :
    (s : σ) → (inputs : List ι) → Decidable (M.Along P s inputs)
  | _, [] => inferInstanceAs (Decidable True)
  | s, i :: rest =>
      have := decidable P (M.step s i).1 rest
      inferInstanceAs (Decidable (P s i ∧ M.Along P (M.step s i).1 rest))

/-- At how many steps of a run a relation holds between the state and the input. -/
def count (P : σ → ι → Prop) [∀ s i, Decidable (P s i)] (s : σ) : List ι → ℕ
  | [] => 0
  | i :: rest => (if P s i then 1 else 0) + count P (M.step s i).1 rest

@[simp] theorem run_nil (s : σ) : M.run s [] = s := rfl

@[simp] theorem run_cons (s : σ) (i : ι) (rest : List ι) :
    M.run s (i :: rest) = M.run (M.step s i).1 rest := rfl

@[simp] theorem outputs_nil (s : σ) : M.outputs s [] = [] := rfl

@[simp] theorem outputs_cons (s : σ) (i : ι) (rest : List ι) :
    M.outputs s (i :: rest) = (M.step s i).2 ++ M.outputs (M.step s i).1 rest := rfl

@[simp] theorem along_nil (P : σ → ι → Prop) (s : σ) : M.Along P s [] := trivial

@[simp] theorem along_cons (P : σ → ι → Prop) (s : σ) (i : ι) (rest : List ι) :
    M.Along P s (i :: rest) ↔ P s i ∧ M.Along P (M.step s i).1 rest := Iff.rfl

theorem run_append (s : σ) (first second : List ι) :
    M.run s (first ++ second) = M.run (M.run s first) second := by
  induction first generalizing s with
  | nil => rfl
  | cons i rest ih => exact ih (M.step s i).1

theorem outputs_append (s : σ) (first second : List ι) :
    M.outputs s (first ++ second) = M.outputs s first ++ M.outputs (M.run s first) second := by
  induction first generalizing s with
  | nil => rfl
  | cons i rest ih => simp only [List.cons_append, outputs_cons, run_cons, ih, List.append_assoc]

theorem along_append (P : σ → ι → Prop) (s : σ) (first second : List ι) :
    M.Along P s (first ++ second) ↔ M.Along P s first ∧ M.Along P (M.run s first) second := by
  induction first generalizing s with
  | nil => simp
  | cons i rest ih => simp only [List.cons_append, along_cons, run_cons, ih, and_assoc]

/-- A machine that is fed with what another one puts out. -/
def andThen {τ : Type*} {π : Type*} (N : Machine τ ο π) : Machine (σ × τ) ι π where
  step s i :=
    let (s', out) := M.step s.1 i
    ((s', N.run s.2 out), N.outputs s.2 out)

/-- **One machine after another**: the second one is run on what the first one puts out,
as if they took turns for the whole run. -/
theorem andThen_eq {τ : Type*} {π : Type*} (N : Machine τ ο π) (s : σ) (t : τ)
    (inputs : List ι) :
    (M.andThen N).run (s, t) inputs = (M.run s inputs, N.run t (M.outputs s inputs)) ∧
      (M.andThen N).outputs (s, t) inputs = N.outputs t (M.outputs s inputs) := by
  induction inputs generalizing s t with
  | nil => exact ⟨rfl, rfl⟩
  | cons i rest ih =>
      obtain ⟨run, outputs⟩ := ih (M.step s i).1 (N.run t (M.step s i).2)
      rw [outputs_cons, run_append, outputs_append]
      refine ⟨run, ?_⟩
      rw [← outputs]
      rfl

/-- The same machine, put out by another view of its steps. -/
def observe {ο' : Type*} (view : σ → ι → List ο') : Machine σ ι ο' where
  step s i := ((M.step s i).1, view s i)

/-- A machine that keeps more than another one, and does the same with what they share,
runs as the other one does. -/
theorem run_forget {σ' ο' : Type*} {N : Machine σ' ι ο'} (forget : σ → σ')
    (same : ∀ s i, forget (M.step s i).1 = (N.step (forget s) i).1) (s : σ) (inputs : List ι) :
    forget (M.run s inputs) = N.run (forget s) inputs := by
  induction inputs generalizing s with
  | nil => rfl
  | cons i rest ih =>
      rw [run_cons, ih, same]
      rfl

@[simp] theorem run_observe {ο' : Type*} (view : σ → ι → List ο') (s : σ) (inputs : List ι) :
    (M.observe view).run s inputs = M.run s inputs :=
  (M.observe view).run_forget (N := M) id (fun _ _ => rfl) s inputs

@[simp] theorem along_observe {ο' : Type*} (view : σ → ι → List ο') (P : σ → ι → Prop) (s : σ)
    (inputs : List ι) : (M.observe view).Along P s inputs ↔ M.Along P s inputs := by
  induction inputs generalizing s with
  | nil => exact Iff.rfl
  | cons i rest ih => exact and_congr_right fun _ => ih (M.step s i).1

/-- The same machine with labels on its inputs. What a step puts out has the label of its
input. -/
def labelled (l : Type*) : Machine σ (ι × l) (ο × l) where
  step s i := ((M.step s i.1).1, (M.step s i.1).2.map fun o => (o, i.2))

/-- Labels do not change what is put out. -/
theorem outputs_labelled {l : Type*} (s : σ) (inputs : List (ι × l)) :
    ((M.labelled l).outputs s inputs).map Prod.fst = M.outputs s (inputs.map Prod.fst) := by
  induction inputs generalizing s with
  | nil => rfl
  | cons i rest ih =>
      have now : ((M.step s i.1).2.map fun o => (o, i.2)).map Prod.fst = (M.step s i.1).2 :=
        List.map_map.trans (List.map_id _)
      rw [List.map_cons, outputs_cons, outputs_cons, List.map_append, ← ih]
      exact congrArg (· ++ _) now

/-- **One level behind another.** Where each step of a machine does to a part of its state
what another machine does, and shows what that one puts out, so does each run. -/
theorem refines {σ' ο' : Type*} {N : Machine σ' ι ο'} (part : σ → σ') (view : ο → Option ο')
    (same : ∀ s i, part (M.step s i).1 = (N.step (part s) i).1 ∧
      (M.step s i).2.filterMap view = (N.step (part s) i).2) (s : σ) (inputs : List ι) :
    part (M.run s inputs) = N.run (part s) inputs ∧
      (M.outputs s inputs).filterMap view = N.outputs (part s) inputs := by
  induction inputs generalizing s with
  | nil => exact ⟨rfl, rfl⟩
  | cons i rest ih =>
      obtain ⟨state, shown⟩ := same s i
      obtain ⟨run, outputs⟩ := ih (M.step s i).1
      rw [state] at run outputs
      rw [run_cons, outputs_cons, outputs_cons, List.filterMap_append, shown, outputs]
      exact ⟨run, rfl⟩

theorem along_true (s : σ) (inputs : List ι) : M.Along (fun _ _ => True) s inputs := by
  induction inputs generalizing s with
  | nil => trivial
  | cons i rest ih => exact ⟨trivial, ih (M.step s i).1⟩

variable {M}

/-- What holds of every input, whatever the state, holds along the run. -/
theorem along_of_forall {P : σ → ι → Prop} {s : σ} {inputs : List ι}
    (holds : ∀ s, ∀ i ∈ inputs, P s i) : M.Along P s inputs := by
  induction inputs generalizing s with
  | nil => trivial
  | cons i rest ih =>
      exact ⟨holds s i List.mem_cons_self,
        ih fun s i' member => holds s i' (List.mem_cons_of_mem i member)⟩

/-- A weaker relation holds along the same run. -/
theorem Along.mono {P Q : σ → ι → Prop} (weaker : ∀ s i, P s i → Q s i) {s : σ}
    {inputs : List ι} (along : M.Along P s inputs) : M.Along Q s inputs := by
  induction inputs generalizing s with
  | nil => trivial
  | cons i rest ih => exact ⟨weaker s i along.1, ih along.2⟩

/-- Relations equivalent at every step hold along the same runs. -/
theorem along_congr {P Q : σ → ι → Prop} (same : ∀ s i, P s i ↔ Q s i) (s : σ)
    (inputs : List ι) : M.Along P s inputs ↔ M.Along Q s inputs :=
  ⟨Along.mono fun s i => (same s i).mp, Along.mono fun s i => (same s i).mpr⟩

/-- Where every step of a run has a label that satisfies a relation, the run can be
labelled. -/
theorem exists_labelled {l : Type*} {P : σ → ι × l → Prop} {s : σ} {inputs : List ι}
    (along : M.Along (fun s i => ∃ label, P s (i, label)) s inputs) :
    ∃ inputs', inputs'.map Prod.fst = inputs ∧ (M.labelled l).Along P s inputs' := by
  induction inputs generalizing s with
  | nil => exact ⟨[], rfl, trivial⟩
  | cons i rest ih =>
      obtain ⟨label, holds⟩ := along.1
      obtain ⟨inputs', rfl, along'⟩ := ih along.2
      exact ⟨(i, label) :: inputs', rfl, holds, along'⟩

theorem along_and {P Q : σ → ι → Prop} {s : σ} {inputs : List ι} (first : M.Along P s inputs)
    (second : M.Along Q s inputs) : M.Along (fun s i => P s i ∧ Q s i) s inputs := by
  induction inputs generalizing s with
  | nil => trivial
  | cons i rest ih => exact ⟨⟨first.1, second.1⟩, ih first.2 second.2⟩

theorem count_eq_zero {P : σ → ι → Prop} [∀ s i, Decidable (P s i)] {s : σ} {inputs : List ι} :
    M.count P s inputs = 0 ↔ M.Along (fun s i => ¬ P s i) s inputs := by
  induction inputs generalizing s with
  | nil => exact iff_of_true rfl trivial
  | cons i rest ih =>
      rw [count, Nat.add_eq_zero_iff, ih, along_cons]
      refine and_congr_left fun _ => ?_
      by_cases holds : P s i
      · rw [if_pos holds]
        exact iff_of_false Nat.one_ne_zero fun fails => fails holds
      · rw [if_neg holds]
        exact iff_of_true rfl holds

/-- Where what happens once rules out that it happens again, it happens at most once
in a run of admitted steps. -/
theorem count_le_one {P Q : σ → ι → Prop} [∀ s i, Decidable (P s i)] (Inv Done : σ → Prop)
    (preserved : ∀ s i, Inv s → Q s i → Inv (M.step s i).1)
    (done : ∀ s i, Inv s → P s i → Done (M.step s i).1)
    (never_again : ∀ s i, Inv s → Done s → Q s i → ¬ P s i ∧ Done (M.step s i).1) {s : σ}
    {inputs : List ι} (start : Inv s) (admitted : M.Along Q s inputs) :
    M.count P s inputs ≤ 1 := by
  have never : ∀ (inputs : List ι) (s : σ), Inv s → Done s → M.Along Q s inputs →
      M.count P s inputs = 0 := by
    intro inputs
    induction inputs with
    | nil => exact fun _ _ _ _ => rfl
    | cons i rest ih =>
        intro s held finished admitted
        obtain ⟨not, finished'⟩ := never_again s i held finished admitted.1
        rw [count, if_neg not, ih _ (preserved s i held admitted.1) finished' admitted.2]
  induction inputs generalizing s with
  | nil => exact Nat.zero_le 1
  | cons i rest ih =>
      have held := preserved s i start admitted.1
      rw [count]
      by_cases now : P s i
      · have none := never rest _ held (done s i start now) admitted.2
        rw [if_pos now]
        omega
      · rw [if_neg now, Nat.zero_add]
        exact ih held admitted.2

/-- **Invariants.** What holds at the start and is preserved by every admitted
step holds at the end of every run of admitted steps. -/
theorem invariant {P : σ → ι → Prop} (Inv : σ → Prop)
    (preserved : ∀ s i, Inv s → P s i → Inv (M.step s i).1) {s : σ} {inputs : List ι}
    (start : Inv s) (admitted : M.Along P s inputs) : Inv (M.run s inputs) := by
  induction inputs generalizing s with
  | nil => exact start
  | cons i rest ih => exact ih (preserved s i start admitted.1) admitted.2

/-- What holds along a run holds along its beginnings. -/
theorem along_prefix {P : σ → ι → Prop} {s : σ} {inputs done : List ι} (inside : done <+: inputs)
    (along : M.Along P s inputs) : M.Along P s done := by
  obtain ⟨rest, rfl⟩ := inside
  exact ((M.along_append ..).mp along).1

/-- A relation holds along a run when it holds at the end of every beginning. -/
theorem along_of_prefix {P : σ → ι → Prop} {s : σ} {inputs : List ι}
    (holds : ∀ done i, done ++ [i] <+: inputs → P (M.run s done) i) : M.Along P s inputs := by
  induction inputs generalizing s with
  | nil => trivial
  | cons i rest ih =>
      refine ⟨holds [] i (List.prefix_cons_inj i |>.mpr List.nil_prefix), ih fun done i' inside => ?_⟩
      exact holds (i :: done) i' (List.prefix_cons_inj i |>.mpr inside)

/-- **Until.** Where an admitted step keeps a property or reaches a goal, a run of
admitted steps ends with the property, or the goal was reached on the way. -/
theorem until_reached {P : σ → ι → Prop} (Inv Goal : σ → Prop)
    (kept : ∀ s i, Inv s → ¬ Goal s → P s i → Inv (M.step s i).1 ∨ Goal (M.step s i).1) {s : σ}
    {inputs : List ι} (start : Inv s) (admitted : M.Along P s inputs) :
    Inv (M.run s inputs) ∨ ∃ done, done <+: inputs ∧ Goal (M.run s done) := by
  induction inputs generalizing s with
  | nil => exact Or.inl start
  | cons i rest ih =>
      by_cases now : Goal s
      · exact Or.inr ⟨[], List.nil_prefix, now⟩
      · rcases kept s i start now admitted.1 with held | reached
        · rcases ih held admitted.2 with ends | ⟨done, inside, reached⟩
          · exact Or.inl ends
          · exact Or.inr ⟨i :: done, List.prefix_cons_inj i |>.mpr inside, reached⟩
        · exact Or.inr ⟨[i], List.prefix_cons_inj i |>.mpr List.nil_prefix, reached⟩

/-- What holds of every prefix holds of the empty one, and after the first element of
every prefix of the rest. -/
theorem forall_prefix_cons {α : Type*} {P : List α → Prop} {a : α} {rest : List α} :
    (∀ done, done <+: a :: rest → P done) ↔ P [] ∧ ∀ done, done <+: rest → P (a :: done) := by
  constructor
  · intro always
    exact ⟨always [] List.nil_prefix, fun done inside =>
      always (a :: done) (List.prefix_cons_inj a |>.mpr inside)⟩
  · rintro ⟨now, later⟩ done inside
    rcases List.prefix_cons_iff.mp inside with rfl | ⟨done', rfl, inside'⟩
    · exact now
    · exact later done' inside'

/-- **Exact conditions, behind an invariant.** Where an invariant that implies a property
is kept by every admitted step under a condition, and the property is lost at an admitted
step without it, the property holds in every state of an admitted run exactly when the
condition holds along the run. -/
theorem along_iff_of_implied {A P : σ → ι → Prop} (Inv Good : σ → Prop)
    (implied : ∀ s, Inv s → Good s)
    (preserved : ∀ s i, Inv s → A s i → P s i → Inv (M.step s i).1)
    (needed : ∀ s i, Inv s → A s i → Good (M.step s i).1 → P s i) {s : σ} (start : Inv s)
    {inputs : List ι} (admitted : M.Along A s inputs) :
    (∀ done, done <+: inputs → Good (M.run s done)) ↔ M.Along P s inputs := by
  induction inputs generalizing s with
  | nil =>
      refine iff_of_true (fun done inside => ?_) trivial
      rw [List.prefix_nil.mp inside]
      exact implied s start
  | cons i rest ih =>
      rw [along_cons, forall_prefix_cons, run_nil, and_iff_right (implied s start)]
      constructor
      · intro always
        have now : P s i := needed s i start admitted.1 (always [] List.nil_prefix)
        exact ⟨now, (ih (preserved s i start admitted.1 now) admitted.2).mp always⟩
      · rintro ⟨now, later⟩
        exact (ih (preserved s i start admitted.1 now) admitted.2).mpr later

/-- **Exact conditions, in admitted runs.** Where an invariant holds and one admitted
step keeps a property exactly when a condition holds before it, the property holds in
every state of an admitted run exactly when the condition holds along the run. -/
theorem along_iff_of_invariant {A P : σ → ι → Prop} (Inv Good : σ → Prop)
    (preserved : ∀ s i, Inv s → A s i → Inv (M.step s i).1)
    (kept : ∀ s i, Inv s → Good s → A s i → (Good (M.step s i).1 ↔ P s i)) {s : σ}
    (start : Inv s) (good : Good s) {inputs : List ι} (admitted : M.Along A s inputs) :
    (∀ done, done <+: inputs → Good (M.run s done)) ↔ M.Along P s inputs :=
  M.along_iff_of_implied (fun s => Inv s ∧ Good s) Good (fun _ held => held.2)
    (fun s i held admits condition =>
      ⟨preserved s i held.1 admits, (kept s i held.1 held.2 admits).mpr condition⟩)
    (fun s i held admits => (kept s i held.1 held.2 admits).mp) ⟨start, good⟩ admitted

/-- **Exact conditions.** Where one step keeps a property exactly when a condition
holds before it, the property holds in every state of a run exactly when the
condition holds along the run. -/
theorem invariant_iff {P : σ → ι → Prop} (Inv : σ → Prop)
    (kept : ∀ s i, Inv s → (Inv (M.step s i).1 ↔ P s i)) {s : σ} (start : Inv s)
    (inputs : List ι) : (∀ done, done <+: inputs → Inv (M.run s done)) ↔ M.Along P s inputs :=
  along_iff_of_invariant (fun _ => True) Inv (fun _ _ _ _ => trivial)
    (fun s i _ held _ => kept s i held) trivial start (M.along_true s inputs)

/-- A relation that an invariant implies at every admitted step holds along
every run of admitted steps. -/
theorem along_of_invariant {P Q : σ → ι → Prop} (Inv : σ → Prop)
    (preserved : ∀ s i, Inv s → P s i → Inv (M.step s i).1)
    (implied : ∀ s i, Inv s → P s i → Q s i) {s : σ} {inputs : List ι} (start : Inv s)
    (admitted : M.Along P s inputs) : M.Along Q s inputs := by
  induction inputs generalizing s with
  | nil => trivial
  | cons i rest ih =>
      exact ⟨implied s i start admitted.1, ih (preserved s i start admitted.1) admitted.2⟩

/-- Relations that are equivalent where an invariant holds hold along the same runs. -/
theorem along_congr_of_invariant {P Q : σ → ι → Prop} (Inv : σ → Prop)
    (preserved : ∀ s i, Inv s → Inv (M.step s i).1) (same : ∀ s i, Inv s → (P s i ↔ Q s i))
    {s : σ} (start : Inv s) (inputs : List ι) : M.Along P s inputs ↔ M.Along Q s inputs := by
  induction inputs generalizing s with
  | nil => exact Iff.rfl
  | cons i rest ih =>
      rw [along_cons, along_cons, same s i start, ih (preserved s i start)]

/-- **What is lost stays lost.** Where a step never brings a property back, and one
that keeps it satisfies a relation, a run that ends with the property satisfies the
relation throughout. -/
theorem along_of_lasting {P Q : σ → ι → Prop} (Inv Good : σ → Prop)
    (lasting : ∀ s i, Good (M.step s i).1 → Good s)
    (preserved : ∀ s i, Inv s → P s i → Inv (M.step s i).1)
    (implied : ∀ s i, Inv s → P s i → Good (M.step s i).1 → Q s i) {s : σ} {inputs : List ι}
    (start : Inv s) (admitted : M.Along P s inputs) (ends : Good (M.run s inputs)) :
    M.Along Q s inputs := by
  have before : ∀ (inputs : List ι) (s : σ), Good (M.run s inputs) → Good s := by
    intro inputs
    induction inputs with
    | nil => exact fun _ good => good
    | cons i rest ih => exact fun s good => lasting s i (ih _ good)
  induction inputs generalizing s with
  | nil => trivial
  | cons i rest ih =>
      exact ⟨implied s i start admitted.1 (before rest _ ends),
        ih (preserved s i start admitted.1) admitted.2 ends⟩

/-- **Invariants over the outputs.** The rule `invariant` for a relation between
the state and everything put out so far. -/
theorem invariant_outputs {P : σ → ι → Prop} (Inv : σ → List ο → Prop)
    (preserved : ∀ s out i, Inv s out → P s i → Inv (M.step s i).1 (out ++ (M.step s i).2))
    {s : σ} {out : List ο} {inputs : List ι} (start : Inv s out)
    (admitted : M.Along P s inputs) : Inv (M.run s inputs) (out ++ M.outputs s inputs) := by
  induction inputs generalizing s out with
  | nil => simpa using start
  | cons i rest ih =>
      have := ih (preserved s out i start admitted.1) admitted.2
      simpa only [run_cons, outputs_cons, List.append_assoc] using this

/-- **Simulation.** Where one step on either side keeps two states related and puts
out the same, so does a run of admitted inputs, one side fed with what the other is
fed translated. -/
theorem simulation {σ' ι' : Type*} {N : Machine σ' ι' ο} (R : σ → σ' → Prop)
    (translate : ι → ι') {A : ι → Prop}
    (kept : ∀ s s' i, R s s' → A i → R (M.step s i).1 (N.step s' (translate i)).1 ∧
      (M.step s i).2 = (N.step s' (translate i)).2) {s : σ} {s' : σ'} (start : R s s')
    {inputs : List ι} (admitted : ∀ i ∈ inputs, A i) :
    R (M.run s inputs) (N.run s' (inputs.map translate)) ∧
      M.outputs s inputs = N.outputs s' (inputs.map translate) := by
  induction inputs generalizing s s' with
  | nil => exact ⟨start, rfl⟩
  | cons i rest ih =>
      obtain ⟨related, same⟩ := kept s s' i start (admitted i List.mem_cons_self)
      obtain ⟨related', same'⟩ :=
        ih related fun i' member => admitted i' (List.mem_cons_of_mem i member)
      refine ⟨related', ?_⟩
      rw [List.map_cons, outputs_cons, outputs_cons, same, same']

/-- **What holds at the end of a run has held since some step of it**, where a step that
leads to it has made it or kept it, and it did not hold at the start. -/
theorem since {Q : σ → Prop} {Made Kept : σ → ι → Prop} (Inv : σ → Prop)
    (preserved : ∀ s i, Inv s → Inv (M.step s i).1)
    (step : ∀ s i, Inv s → Q (M.step s i).1 → Made s i ∨ Q s ∧ Kept s i) {s : σ} (inv : Inv s)
    (start : ¬ Q s) (inputs : List ι) (ends : Q (M.run s inputs)) :
    ∃ before i after, inputs = before ++ i :: after ∧ Made (M.run s before) i ∧
      M.Along Kept (M.run s (before ++ [i])) after := by
  induction inputs using List.reverseRecOn with
  | nil => exact absurd ends start
  | append_singleton inputs i ih =>
      have holds : Inv (M.run s inputs) :=
        M.invariant (P := fun _ _ => True) Inv (fun s i held _ => preserved s i held) inv
          (M.along_true s inputs)
      rw [run_append] at ends
      rcases step _ i holds ends with made | ⟨held, kept⟩
      · exact ⟨inputs, i, [], rfl, made, trivial⟩
      · obtain ⟨before, i', after, rfl, made, along⟩ := ih held
        refine ⟨before, i', after ++ [i], by rw [List.append_assoc, List.cons_append], made, ?_⟩
        rw [along_append]
        refine ⟨along, ?_, trivial⟩
        rw [← run_append, List.append_assoc, List.singleton_append]
        exact kept

/-- Whatever is put out is put out by a step from a state of the run. -/
theorem mem_outputs (Inv : σ → Prop) (preserved : ∀ s i, Inv s → Inv (M.step s i).1) {s : σ}
    {o : ο} {inputs : List ι} (start : Inv s) (member : o ∈ M.outputs s inputs) :
    ∃ s' i, Inv s' ∧ i ∈ inputs ∧ o ∈ (M.step s' i).2 := by
  induction inputs generalizing s with
  | nil => cases member
  | cons i rest ih =>
      rcases List.mem_append.mp member with now | later
      · exact ⟨s, i, start, List.mem_cons_self, now⟩
      · obtain ⟨s', i', reached, inside, out⟩ := ih (preserved s i start) later
        exact ⟨s', i', reached, List.mem_cons_of_mem i inside, out⟩

end Machine

end VoiceChat
