import VoiceChat.Library.Network
import VoiceChat.Session.Admission
import VoiceChat.Session.Emissions

/-!
# A host and its joiners

One host and any number of joiners, each at an address of its own. Every member
takes its own steps: a joiner may send its JOIN, and each runs its session. What
they send stays on record; the network may lose, duplicate, delay and reorder it,
but hands each datagram only to the address it was sent to.

Next to the members stands what the host has granted, and who has handled a peer
list.
-/

set_option autoImplicit false

namespace VoiceChat

inductive Member (J : Type) where
  | host
  | joiner (j : J)
  deriving DecidableEq

/-- What a member does. -/
inductive Action where
  /-- Send a JOIN to the host. -/
  | join (listenPort : UInt16)
  | event (event : Node.Event)

/-- The members of a session as one machine each. -/
def memberMachine {D : Type} (prim : Primitives D) (hostAddr : SocketAddr) :
    Machine (Node D) (Env D × Action) Emission where
  step node input :=
    match input.2 with
    | .join listenPort => (node, (node.sendJoin prim input.1 listenPort hostAddr).out)
    | .event event => node.step prim input.1 event

/-- A host and joiners with one pre-shared key. -/
structure Call (J : Type) where
  addr : Member J → SocketAddr
  distinct : Function.Injective addr
  key : Key
  sessionId : SessionId
  keyExchange : Member J → KeyExchange

/-- The members, what the host has granted and who has handled a peer list. -/
structure Mesh (J D : Type) where
  net : Network (Member J) (Node D) Emission
  grants : List (SocketAddr × UInt8)
  listed : List (Member J)

namespace Call

variable {J D : Type} (call : Call J)

/-- A member as its session sets it up. -/
def node : Member J → Node D
  | .host => Node.host call.key call.sessionId (call.keyExchange .host)
  | .joiner j => Node.joiner call.key (call.keyExchange (.joiner j))

/-- Nobody has sent anything. -/
def start : Mesh J D := ⟨Network.start call.node, [], []⟩

/-- What a step of a member grants. -/
def grantsOf (node node' : Node D) : Member J → Action → List (SocketAddr × UInt8)
  | .host, .event event => Node.newGrants node node' event
  | _, _ => []

/-- Whether a step handles a peer list. -/
def lists (prim : Primitives D) (node : Node D) : Action → Bool
  | .event (.recv data _) => (node.adopts prim data).isSome
  | _ => false

/-- The group as a machine. -/
def machine [DecidableEq J] (prim : Primitives D) :
    Machine (Mesh J D) (Member J × Env D × Action) (Member J × Emission) where
  step mesh input :=
    let (net, out) := (Network.machine (memberMachine prim (call.addr .host))).step mesh.net input
    ({ net := net
       grants := mesh.grants ++
        grantsOf (mesh.net.node input.1) (net.node input.1) input.1 input.2.2
       listed := if lists prim (mesh.net.node input.1) input.2.2 then mesh.listed ++ [input.1]
        else mesh.listed }, out)

/-- The host does not join, and a datagram that is received was sent to the
address of the member, from the address it appears to come from. -/
def Delivers (mesh : Mesh J D) (input : Member J × Env D × Action) : Prop :=
  match input.2.2 with
  | .join _ => input.1 ≠ .host
  | .event (.recv data srcAddr) => ∃ q, ∃ e ∈ mesh.net.sent q, data = e.wire ∧
      e.dst = call.addr input.1 ∧ srcAddr = call.addr q
  | .event _ => True

/-! ## Steps of the group -/

section Steps

variable {call} {prim : Primitives D} [DecidableEq J] (mesh : Mesh J D) (p : Member J) (env : Env D)

@[simp] theorem step_node_self (event : Node.Event) :
    ((call.machine prim).step mesh (p, env, .event event)).1.net.node p =
      ((mesh.net.node p).step prim env event).1 := Network.step_node_self ..

theorem step_node_of_ne {q : Member J} (other : q ≠ p) (action : Action) :
    ((call.machine prim).step mesh (p, env, action)).1.net.node q = mesh.net.node q :=
  Network.step_node_of_ne _ _ other _

/-- Sending a JOIN changes no node. -/
theorem step_node_join (listenPort : UInt16) (q : Member J) :
    ((call.machine prim).step mesh (p, env, .join listenPort)).1.net.node q = mesh.net.node q := by
  by_cases same : q = p
  · subst same
    exact Network.step_node_self ..
  · exact step_node_of_ne mesh p env same _

/-- A node changes by an event of its own only. -/
theorem step_node_of_idle {q : Member J} {action : Action}
    (idle : ¬ (p = q ∧ ∃ event, action = .event event)) :
    ((call.machine prim).step mesh (p, env, action)).1.net.node q = mesh.net.node q := by
  by_cases same : q = p
  · cases action with
    | join listenPort => exact step_node_join mesh p env listenPort q
    | event event => exact absurd ⟨same.symm, event, rfl⟩ idle
  · exact step_node_of_ne mesh p env same action

theorem step_grants (action : Action) :
    ((call.machine prim).step mesh (p, env, action)).1.grants = mesh.grants ++
      grantsOf (mesh.net.node p) (((call.machine prim).step mesh (p, env, action)).1.net.node p) p
        action := rfl

/-- What is granted stays granted. -/
theorem mem_step_grants {grant : SocketAddr × UInt8} (granted : grant ∈ mesh.grants)
    (action : Action) : grant ∈ ((call.machine prim).step mesh (p, env, action)).1.grants :=
  List.mem_append_left _ granted

/-- What is granted was granted before, or an event of the host grants it. -/
theorem grants_of_step {grant : SocketAddr × UInt8} {action : Action}
    (granted : grant ∈ ((call.machine prim).step mesh (p, env, action)).1.grants) :
    grant ∈ mesh.grants ∨ p = .host ∧ ∃ event, action = .event event ∧
      grant ∈ (mesh.net.node p).newGrants ((mesh.net.node p).step prim env event).1 event := by
  rcases List.mem_append.mp granted with old | new
  · exact Or.inl old
  · cases p with
    | joiner j => cases new
    | host =>
        cases action with
        | join listenPort => cases new
        | event event =>
            refine Or.inr ⟨rfl, event, rfl, ?_⟩
            rw [← @step_node_self J D call]
            exact new

/-- Only the host grants. -/
theorem step_grants_joiner (j : J) (action : Action) :
    ((call.machine prim).step mesh (.joiner j, env, action)).1.grants = mesh.grants := by
  rw [step_grants]
  exact List.append_nil _

theorem mem_step_listed {q : Member J} {action : Action} :
    q ∈ ((call.machine prim).step mesh (p, env, action)).1.listed ↔
      q ∈ mesh.listed ∨ q = p ∧ lists prim (mesh.net.node p) action = true := by
  change q ∈ (if lists prim (mesh.net.node p) action then mesh.listed ++ [p] else mesh.listed) ↔ _
  split_ifs with lists
  · rw [List.mem_append, List.mem_singleton, and_iff_left lists]
  · exact (or_iff_left fun both => lists both.2).symm

/-- Nobody is listed but by an event of its own. -/
theorem mem_step_listed_of_idle {q : Member J} {action : Action}
    (idle : ¬ (p = q ∧ ∃ event, action = .event event)) :
    q ∈ ((call.machine prim).step mesh (p, env, action)).1.listed ↔ q ∈ mesh.listed := by
  refine (mem_step_listed mesh p env).trans (or_iff_left ?_)
  rintro ⟨rfl, listing⟩
  cases action with
  | join listenPort => cases listing
  | event event => exact idle ⟨rfl, event, rfl⟩

/-- What a member has sent after a step was sent before, or is a JOIN that it sends, or
comes of an event. -/
theorem sent_of_step {q : Member J} {action : Action} {e : Emission}
    (member : e ∈ ((call.machine prim).step mesh (p, env, action)).1.net.sent q) :
    e ∈ mesh.net.sent q ∨ q = p ∧
      ((∃ listenPort, action = .join listenPort ∧ e.header = ⟨pktJoin, 0, 0, 0⟩ ∧
          e.nonce = buildNonce zeroSession 0 .send 0 0 ∧
          e.plaintext = JoinPayload.toBytes ⟨listenPort⟩) ∨
        ∃ event, action = .event event ∧ e ∈ ((mesh.net.node p).step prim env event).2) := by
  rcases (Network.mem_step_sent (memberMachine prim (call.addr .host))).mp member with
    old | ⟨rfl, new⟩
  · exact Or.inl old
  · refine Or.inr ⟨rfl, ?_⟩
    cases action with
    | join listenPort =>
        obtain ⟨sealedWith, _, header, plaintext, _⟩ := Node.mem_sendSealed_out new
        refine Or.inl ⟨listenPort, rfl, header, ?_, plaintext⟩
        rw [sealedWith.nonce, header]
        rfl
    | event event => exact Or.inr ⟨event, rfl, new⟩

end Steps

end Call

namespace Sample

/-- A host and two joiners. -/
def call : Call Bool where
  addr
    | .host => addr 0
    | .joiner false => addr 1
    | .joiner true => addr 2
  distinct := by
    rintro (_ | _ | _) (_ | _ | _) same
    all_goals first
      | rfl
      | exact absurd same (by decide)
  key := psk
  sessionId := session
  keyExchange
    | .host => ⟨Vector.replicate 32 3⟩
    | .joiner false => ⟨Vector.replicate 32 5⟩
    | .joiner true => ⟨Vector.replicate 32 6⟩

end Sample

end VoiceChat
