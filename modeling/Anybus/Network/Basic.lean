import Anybus.Db.Step
import Mathlib.Data.Finset.Card
import Mathlib.Data.List.Dedup

/-!
# Networks of routers

A network is one database per node and the messages on their way. A message is
addressed to a node and to the connection it will come in on there. An operation at
a node writes to the channels of its links, and what was queued is then on its way;
the channels may be closed or of any size, so every pattern of refusals is covered.
-/

namespace Anybus

/-- A message on its way to a node, over one of that node's connections. -/
structure Envelope (ι : Type*) where
  dest : ι
  connectionId : ConnectionId
  message : NodeMessage
  deriving DecidableEq

-- Sample networks have three or four nodes, which are numbered from 1.
instance neZeroThree : @NeZero Nat Zero.ofOfNat0 3 := ⟨by decide⟩

instance neZeroFour : @NeZero Nat Zero.ofOfNat0 4 := ⟨by decide⟩

theorem threeNodes_succ_lt (i : Fin 3) : i.val + 1 < 2 ^ 128 := by omega

/-- Where each channel of each node leads. -/
abbrev Wiring (ι : Type*) := ι → Tx → ι × ConnectionId

/-- The state of a network; messages are on their way in the order they were sent. -/
structure Net (ι : Type*) where
  db : ι → LsDb
  flight : List (Envelope ι)

instance {ι : Type*} [DecidableEq ι] [Fintype ι] : DecidableEq (Net ι) := fun s t =>
  decidable_of_iff (s.db = t.db ∧ s.flight = t.flight) (by cases s; cases t; simp)

/-- Nothing is queued in any link's channel. -/
def Wires.Drained (w : Wires) : Prop := ∀ t, (w.node t).queue = []

theorem Wires.drained_idle (capacity : Nat) : (Wires.idle capacity).Drained := fun _ => rfl

/-- The channels of a node's links. -/
def LsDb.txs (db : LsDb) : List Tx := (db.links.values.map Link.tx).dedup

/-- What follows an operation at its node: the maps may be rehashed, and paths and
forwarding table are recomputed. -/
inductive LsDb.Settles : LsDb → LsDb → Prop where
  | refl (db : LsDb) : Settles db db
  | rehash {db db' db'' : LsDb} : Settles db db' → LsDb.Rehash db' db'' → Settles db db''
  | buildFib {db db' db'' : LsDb} {fib : ForwardingTable} : Settles db db' →
      db'.buildFib = some (db'', fib) → Settles db db''

namespace LsDb

/-- Settling keeps the node's identity, its records and its links. -/
theorem Settles.frame {db db' : LsDb} (h : Settles db db') :
    db'.selfId = db.selfId ∧ (∀ k, db'.db.get k = db.db.get k) ∧
      ∀ c, db'.links.get c = db.links.get c := by
  induction h with
  | refl => exact ⟨rfl, fun _ => rfl, fun _ => rfl⟩
  | rehash _ hre ih =>
    obtain ⟨hself, hrec, hlink⟩ := ih
    exact ⟨hre.selfId.trans hself, fun k => (hre.get_record k).trans (hrec k),
      fun c => (hre.get_link c).trans (hlink c)⟩
  | buildFib _ hfib ih =>
    obtain ⟨s, _, rfl, _⟩ := buildFib_eq_some_iff.mp hfib
    exact ih

end LsDb

namespace Net

variable {ι : Type*}

/-- What a node has queued for its links, as messages on their way. -/
def sent (wire : Wiring ι) (i : ι) (db : LsDb) (w : Wires) : List (Envelope ι) :=
  db.txs.flatMap fun t => (w.node t).queue.map fun m => ⟨(wire i t).1, (wire i t).2, m⟩

theorem mem_sent {wire : Wiring ι} {i : ι} {db : LsDb} {w : Wires} {e : Envelope ι} :
    e ∈ sent wire i db w ↔ ∃ c link, db.links.get c = some link ∧
      e.message ∈ (w.node link.tx).queue ∧ wire i link.tx = (e.dest, e.connectionId) := by
  simp only [sent, LsDb.txs, List.mem_flatMap, List.mem_dedup, List.mem_map]
  constructor
  · rintro ⟨_, ⟨link, hlink, rfl⟩, m, hm, rfl⟩
    obtain ⟨c, hc⟩ := HashMap.mem_values_iff.mp hlink
    exact ⟨c, link, hc, hm, rfl⟩
  · rintro ⟨c, link, hc, hm, hwire⟩
    refine ⟨link.tx, ⟨link, HashMap.mem_values_iff.mpr ⟨c, hc⟩, rfl⟩, e.message, hm, ?_⟩
    rw [hwire]

variable [DecidableEq ι]

/-- The state after an operation at a node. -/
def post (s : Net ι) (wire : Wiring ι) (i : ι) (r : LsDb × Wires) : Net ι :=
  ⟨Function.update s.db i r.1, s.flight ++ sent wire i r.1 r.2⟩

/-- The messages on their way without one of them. -/
def without (s : Net ι) (e : Envelope ι) : Net ι := { s with flight := s.flight.erase e }

/-- Deliver one message to the database of its node; `none` if the node panics. Packets
are left to the forwarding table. -/
def deliver (s : Net ι) (wire : Wiring ι) (w : Wires) (now : Instant) (e : Envelope ι) :
    Option (Net ι) :=
  match e.message with
  | .lsa lsa =>
    ((s.db e.dest).handleLsa w lsa e.connectionId now).map ((s.without e).post wire e.dest)
  | .lsaAck key seq =>
    some ((s.without e).post wire e.dest ((s.db e.dest).handleAck e.connectionId key seq, w))
  | .wirePacket _ => some (s.without e)

/-- The state after a node has settled. -/
def SettlesAt (i : ι) (s s' : Net ι) : Prop :=
  ∃ db', LsDb.Settles (s.db i) db' ∧ s' = { s with db := Function.update s.db i db' }

/-- The delivery of a message on its way, in any environment. -/
def Delivers (wire : Wiring ι) (e : Envelope ι) (s s' : Net ι) : Prop :=
  e ∈ s.flight ∧ ∃ w now s₁, w.Drained ∧ s.deliver wire w now e = some s₁ ∧ SettlesAt e.dest s₁ s'

/-- Deliver the oldest message and rebuild the forwarding table of its node. -/
def advance (wire : Wiring ι) (s : Net ι) : Option (Net ι) :=
  match s.flight with
  | [] => none
  | e :: _ =>
    match s.deliver wire (.idle 32) 0 e with
    | none => none
    | some s₁ => (s₁.db e.dest).buildFib.map fun r =>
      { s₁ with db := Function.update s₁.db e.dest r.1 }

/-- Deliver several messages, oldest first. -/
def advanceBy (wire : Wiring ι) : ℕ → Net ι → Option (Net ι)
  | 0, s => some s
  | n + 1, s => (advanceBy wire n s).bind (advance wire)

theorem advance_delivers {wire : Wiring ι} {s s' : Net ι} (h : advance wire s = some s') :
    ∃ e, s.flight.head? = some e ∧ Delivers wire e s s' := by
  unfold advance at h
  split at h
  · cases h
  · next e rest hf =>
    refine ⟨e, by rw [hf, List.head?_cons], by rw [hf]; exact List.mem_cons_self, ?_⟩
    split at h
    · cases h
    · next s₁ hs₁ =>
      obtain ⟨r, hr, rfl⟩ := Option.map_eq_some_iff.mp h
      exact ⟨.idle 32, 0, s₁, Wires.drained_idle 32, hs₁, r.1, .buildFib (.refl _) hr, rfl⟩

theorem advanceBy_add (wire : Wiring ι) (m n : ℕ) (s : Net ι) :
    advanceBy wire (m + n) s = (advanceBy wire m s).bind (advanceBy wire n) := by
  induction n with
  | zero => cases advanceBy wire m s <;> simp [advanceBy]
  | succ n ih =>
    rw [← Nat.add_assoc, advanceBy, ih]
    cases advanceBy wire m s <;> simp [advanceBy]

/-- Take up one end of a link. -/
def attach (wire : Wiring ι) (s : Net ι) (i : ι) (link : Link) : Net ι :=
  s.post wire i ((s.db i).addPeer (.idle 32) link 0)

end Net

end Anybus
