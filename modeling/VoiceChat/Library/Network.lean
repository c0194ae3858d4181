import Mathlib.Logic.Function.Basic
import VoiceChat.Library.Machine

/-!
# Several parties

Copies of one machine, one for each party, that take steps one at a time in any
order. Next to the states stands a record of everything each party has put out.
What a network may deliver is a relation between the record and the inputs
(`Machine.Along`): a network that loses, duplicates, delays and reorders may hand
any party anything on the record, at any time.

A post only delays and reorders: what was put out is in flight until it is handed
to a party, once.
-/

set_option autoImplicit false

namespace VoiceChat

universe u v w x

/-- The states of the parties and what each has put out, oldest first. -/
structure Network (P : Type u) (σ : Type v) (ο : Type w) where
  node : P → σ
  sent : P → List ο

namespace Network

variable {P : Type u} {σ : Type v} {ο : Type w} {ι : Type x}

/-- Nothing was put out yet. -/
def start (node : P → σ) : Network P σ ο := ⟨node, fun _ => []⟩

@[simp] theorem start_node (node : P → σ) (p : P) :
    (start node : Network P σ ο).node p = node p := rfl

@[simp] theorem start_sent (node : P → σ) (p : P) : (start node : Network P σ ο).sent p = [] := rfl

variable [DecidableEq P] (M : Machine σ ι ο)

/-- One party takes a step. -/
def machine : Machine (Network P σ ο) (P × ι) (P × ο) where
  step net input :=
    ({ node := Function.update net.node input.1 (M.step (net.node input.1) input.2).1
       sent := Function.update net.sent input.1
        (net.sent input.1 ++ (M.step (net.node input.1) input.2).2) },
      (M.step (net.node input.1) input.2).2.map (Prod.mk input.1))

@[simp] theorem step_node_self (net : Network P σ ο) (p : P) (i : ι) :
    ((machine M).step net (p, i)).1.node p = (M.step (net.node p) i).1 :=
  Function.update_self ..

theorem step_node_of_ne (net : Network P σ ο) {p q : P} (other : q ≠ p) (i : ι) :
    ((machine M).step net (p, i)).1.node q = net.node q :=
  Function.update_of_ne other ..

@[simp] theorem step_sent_self (net : Network P σ ο) (p : P) (i : ι) :
    ((machine M).step net (p, i)).1.sent p = net.sent p ++ (M.step (net.node p) i).2 :=
  Function.update_self ..

theorem step_sent_of_ne (net : Network P σ ο) {p q : P} (other : q ≠ p) (i : ι) :
    ((machine M).step net (p, i)).1.sent q = net.sent q :=
  Function.update_of_ne other ..

/-- What is on record after a step was there before, or the step has put it out. -/
theorem mem_step_sent {net : Network P σ ο} {p q : P} {i : ι} {o : ο} :
    o ∈ ((machine M).step net (p, i)).1.sent q ↔
      o ∈ net.sent q ∨ q = p ∧ o ∈ (M.step (net.node p) i).2 := by
  by_cases same : q = p
  · subst same
    rw [step_sent_self, List.mem_append]
    simp only [true_and]
  · rw [step_sent_of_ne M net same]
    simp only [same, false_and, or_false]

/-- **One party at a time.** What holds of every party by itself, together with
what it has put out, is preserved by the network if it is preserved by a step of
the party that takes it. -/
theorem forall_step {Q : P → σ → List ο → Prop} {net : Network P σ ο} {p : P} {i : ι}
    (held : ∀ q, Q q (net.node q) (net.sent q))
    (preserved : Q p (M.step (net.node p) i).1 (net.sent p ++ (M.step (net.node p) i).2)) (q : P) :
    Q q (((machine M).step net (p, i)).1.node q) (((machine M).step net (p, i)).1.sent q) := by
  by_cases same : q = p
  · subst same
    rwa [step_node_self, step_sent_self]
  · rw [step_node_of_ne M net same, step_sent_of_ne M net same]
    exact held q

end Network

/-! ## Nothing is lost and nothing comes twice -/

/-- The states of the parties and what is in flight, each with who put it out. -/
structure Post (P : Type u) (σ : Type v) (ο : Type w) where
  node : P → σ
  inFlight : List (P × ο)

namespace Post

variable {P : Type u} {σ : Type v} {ο : Type w} {ι : Type x} {κ : Type*}
variable [DecidableEq P] [DecidableEq ο] (M : Machine σ ι ο) (receive : P × ο → κ → ι)

/-- A party receives something that is in flight. What it then takes as its input
may depend on more than what it receives. -/
def machine : Machine (Post P σ ο) (P × (P × ο) × κ) (P × ο) where
  step post input :=
    let (node, out) := M.step (post.node input.1) (receive input.2.1 input.2.2)
    ({ node := Function.update post.node input.1 node
       inFlight := post.inFlight.erase input.2.1 ++ out.map (Prod.mk input.1) },
      out.map (Prod.mk input.1))

variable (post : Post P σ ο) (m : P × ο) (k : κ)

@[simp] theorem step_node_self (p : P) :
    ((machine M receive).step post (p, m, k)).1.node p =
      (M.step (post.node p) (receive m k)).1 :=
  Function.update_self ..

theorem step_node_of_ne {p q : P} (other : q ≠ p) :
    ((machine M receive).step post (p, m, k)).1.node q = post.node q :=
  Function.update_of_ne other ..

theorem step_inFlight (p : P) :
    ((machine M receive).step post (p, m, k)).1.inFlight =
      post.inFlight.erase m ++ (M.step (post.node p) (receive m k)).2.map (Prod.mk p) := rfl

end Post

end VoiceChat
