import Anybus.Db.Queues
import Anybus.Network.Basic

/-!
# How far an endpoint is known

A run of a network, with a record of every LSA that was put on a link. An endpoint gets
from node to node over links that were up at the time and carry its realm, and of a
router's adjacencies a link carries only what it has a realm in common with.
-/

namespace Anybus

/-- An LSA that was put on a link, and where that link leads. -/
structure Crossing (ι : Type*) where
  sender : ι
  link : Link
  dest : ι
  connectionId : ConnectionId
  lsa : Lsa

/-- The LSA in a message. -/
def NodeMessage.lsaOf : NodeMessage → Option Lsa
  | .lsa l => some l
  | .lsaAck _ _ | .wirePacket _ => none

theorem NodeMessage.lsaOf_eq_some {m : NodeMessage} {l : Lsa} : m.lsaOf = some l ↔ m = .lsa l := by
  cases m <;> simp [lsaOf]

/-- Everything but the arrival of a message. -/
def Op.IsLocal : Op → Prop
  | .handleLsa _ _ | .handleAck _ _ _ => False
  | _ => True

/-- The links that are up before or after an operation. -/
def LsDb.live (db db' : LsDb) : List Link := db.links.values ++ db'.links.values

theorem LsDb.mem_live {db db' : LsDb} {link : Link} : link ∈ db.live db' ↔ db.Live db' link := by
  rw [live, List.mem_append, HashMap.mem_values_iff, HashMap.mem_values_iff, Live, exists_or]

namespace Net

variable {ι : Type*}

/-- The messages in the channels of some links of a node. -/
def queued (wire : Wiring ι) (i : ι) (links : List Link) (w : Wires) : List (Envelope ι) :=
  (links.map Link.tx).dedup.flatMap fun t =>
    (w.node t).queue.map fun m => ⟨(wire i t).1, (wire i t).2, m⟩

/-- The LSAs among them, each with its link. -/
def crossings (wire : Wiring ι) (i : ι) (links : List Link) (w : Wires) : List (Crossing ι) :=
  links.flatMap fun link => ((w.node link.tx).queue.filterMap NodeMessage.lsaOf).map fun lsa =>
    ⟨i, link, (wire i link.tx).1, (wire i link.tx).2, lsa⟩

theorem mem_queued {wire : Wiring ι} {i : ι} {links : List Link} {w : Wires} {e : Envelope ι} :
    e ∈ queued wire i links w ↔ ∃ link ∈ links, e.message ∈ (w.node link.tx).queue ∧
      wire i link.tx = (e.dest, e.connectionId) := by
  simp only [queued, List.mem_flatMap, List.mem_dedup, List.mem_map]
  constructor
  · rintro ⟨_, ⟨link, hlink, rfl⟩, m, hm, rfl⟩
    exact ⟨link, hlink, hm, rfl⟩
  · rintro ⟨link, hlink, hm, hwire⟩
    refine ⟨link.tx, ⟨link, hlink, rfl⟩, e.message, hm, ?_⟩
    rw [hwire]

theorem mem_crossings {wire : Wiring ι} {i : ι} {links : List Link} {w : Wires} {x : Crossing ι} :
    x ∈ crossings wire i links w ↔ x.sender = i ∧ x.link ∈ links ∧
      .lsa x.lsa ∈ (w.node x.link.tx).queue ∧ wire i x.link.tx = (x.dest, x.connectionId) := by
  simp only [crossings, List.mem_flatMap, List.mem_map, List.mem_filterMap,
    NodeMessage.lsaOf_eq_some]
  constructor
  · rintro ⟨link, hlink, lsa, ⟨m, hm, rfl⟩, rfl⟩
    exact ⟨rfl, hlink, hm, rfl⟩
  · rintro ⟨rfl, hlink, hm, hwire⟩
    refine ⟨x.link, hlink, x.lsa, ⟨_, hm, rfl⟩, ?_⟩
    rw [hwire]

/-- The crossings that took an LSA from one node to another. -/
inductive Trail (log : List (Crossing ι)) (lsa : Lsa) (o : ι) : ι → List (Crossing ι) → Prop where
  | nil : Trail log lsa o o []
  | snoc {path : List (Crossing ι)} (x : Crossing ι) (h : Trail log lsa o x.sender path)
      (hx : x ∈ log) (hlsa : x.lsa = lsa) : Trail log lsa o x.dest (path ++ [x])

/-- A link carries the LSA: the realm of an endpoint, or some realm of every adjacency and
no other. -/
def Carries (link : Link) (lsa : Lsa) : Prop :=
  match lsa.body with
  | .router adjs => ∀ adj ∈ adjs, adj.realms ≠ ∅ ∧ adj.realms ⊆ link.realms
  | .endpoint info => info.realm ∈ link.realms

theorem carries_router {link : Link} {lsa : Lsa} {adjs : List Adjacency}
    (hb : lsa.body = .router adjs) : Carries link lsa ↔
      ∀ adj ∈ adjs, adj.realms ≠ ∅ ∧ adj.realms ⊆ link.realms := by
  rw [Carries, hb]

theorem carries_endpoint {link : Link} {lsa : Lsa} {info : EndpointInfo}
    (hb : lsa.body = .endpoint info) : Carries link lsa ↔ info.realm ∈ link.realms := by
  rw [Carries, hb]

/-- An LSA has come to a node over links that carry it. -/
def Brought (ids : ι → NodeId) (log : List (Crossing ι)) (lsa : Lsa) (i : ι) : Prop :=
  ∃ o path, ids o = lsa.key.origin ∧ Trail log lsa o i path ∧ ∀ x ∈ path, Carries x.link lsa

/-- What a link permits it carries, and an endpoint passes unchanged. -/
theorem carries_of_permits {link : Link} {lsa lsa' : Lsa} (h : link.permits lsa = some lsa') :
    Carries link lsa' ∧ ∀ info, lsa'.body = .endpoint info → lsa' = lsa := by
  unfold Link.permits at h
  cases hb : lsa.body with
  | router adjs =>
    simp only [hb] at h
    split at h
    · cases h
    · obtain rfl := Option.some.inj h
      refine ⟨fun adj hadj => ?_, fun info hinfo => by cases hinfo⟩
      obtain ⟨hadj, hne⟩ := List.mem_filter.mp hadj
      obtain ⟨adj₀, -, rfl⟩ := List.mem_map.mp hadj
      exact ⟨of_decide_eq_true hne, Finset.inter_subset_right⟩
  | endpoint info =>
    simp only [hb] at h
    split at h
    · obtain rfl := Option.some.inj h
      exact ⟨(carries_endpoint hb).mpr ‹_›, fun _ _ => rfl⟩
    · cases h

section

variable {ids : ι → NodeId} {log log' : List (Crossing ι)} {lsa : Lsa}

theorem Trail.mono (hlog : ∀ x ∈ log, x ∈ log') {o i : ι}
    {path : List (Crossing ι)} (h : Trail log lsa o i path) : Trail log' lsa o i path := by
  induction h with
  | nil => exact .nil
  | snoc x _ hx hlsa ih => exact .snoc x ih (hlog x hx) hlsa

theorem Brought.mono (hlog : ∀ x ∈ log, x ∈ log') {i : ι}
    (h : Brought ids log lsa i) : Brought ids log' lsa i := by
  obtain ⟨o, path, ho, htrail, hcarry⟩ := h
  exact ⟨o, path, ho, htrail.mono hlog, hcarry⟩

/-- One crossing further. -/
theorem Brought.cross {x : Crossing ι} (hx : x ∈ log) (hcarry : Carries x.link x.lsa)
    (h : Brought ids log x.lsa x.sender) : Brought ids log x.lsa x.dest := by
  obtain ⟨o, path, ho, htrail, hpath⟩ := h
  refine ⟨o, path ++ [x], ho, htrail.snoc x hx rfl, fun y hy => ?_⟩
  rcases List.mem_append.mp hy with hy | hy
  · exact hpath y hy
  · obtain rfl := List.mem_singleton.mp hy
    exact hcarry

end

variable [DecidableEq ι]

/-- An operation at a node: the network after it, and the LSAs it has put on the links. -/
def perform (s : Net ι) (wire : Wiring ι) (w : Wires) (now : Instant) (i : ι) (op : Op) :
    Option (Net ι × List (Crossing ι)) :=
  ((s.db i).step w now op).map fun r =>
    (⟨Function.update s.db i r.1, s.flight ++ queued wire i ((s.db i).live r.1) r.2⟩,
      crossings wire i ((s.db i).live r.1) r.2)

/-- What a node can do next: something of its own, where a new link has a channel of its
own, or handle a message that is on its way to it. -/
inductive Takes (s : Net ι) (i : ι) : Op → Net ι → Prop where
  | own {op : Op} (h : op.IsLocal)
      (hfresh : ∀ link, op = .addPeer link → ∀ c l, (s.db i).links.get c = some l → l.tx ≠ link.tx) :
      Takes s i op s
  | lsa {c : ConnectionId} {lsa : Lsa} (h : ⟨i, c, .lsa lsa⟩ ∈ s.flight) :
      Takes s i (.handleLsa lsa c) (s.without ⟨i, c, .lsa lsa⟩)
  | ack {c : ConnectionId} {key : LsaKey} {seq : Nat} (h : ⟨i, c, .lsaAck key seq⟩ ∈ s.flight) :
      Takes s i (.handleAck c key seq) (s.without ⟨i, c, .lsaAck key seq⟩)

/-- The runs of a network of fresh nodes. Messages may be lost, and arrive in any order;
channels may be closed or full. -/
inductive Reaches (wire : Wiring ι) (ids : ι → NodeId) : Net ι → List (Crossing ι) → Prop where
  | start (now : ι → Instant) : Reaches wire ids ⟨fun i => .new (ids i) (now i), []⟩ []
  | settle {s s' : Net ι} {log : List (Crossing ι)} (i : ι) (h : Reaches wire ids s log)
      (hs : SettlesAt i s s') : Reaches wire ids s' log
  | lose {s : Net ι} {log : List (Crossing ι)} (e : Envelope ι) (h : Reaches wire ids s log) :
      Reaches wire ids (s.without e) log
  | takes {s s₀ s' : Net ι} {log out : List (Crossing ι)} {w : Wires} (now : Instant) (i : ι) (op : Op)
      (h : Reaches wire ids s log) (ht : Takes s i op s₀) (hw : w.Drained)
      (hp : s₀.perform wire w now i op = some (s', out)) : Reaches wire ids s' (log ++ out)

/-- What holds in every run: no two links of a node share a channel, every LSA on its way
has crossed a link that carries it, and every endpoint a node knows was brought there. -/
structure Contained (ids : ι → NodeId) (s : Net ι) (log : List (Crossing ι)) : Prop where
  self (i : ι) : (s.db i).selfId = ids i
  ok (i : ι) : (s.db i).Ok
  channels (i : ι) (c c' : ConnectionId) (l l' : Link) : (s.db i).links.get c = some l →
    (s.db i).links.get c' = some l' → l.tx = l'.tx → l = l'
  stored (i : ι) (k : LsaKey) (r : LsaRecord) (info : EndpointInfo) :
    (s.db i).db.get k = some r → r.lsa.body = .endpoint info → Brought ids log r.lsa i
  onWay (e : Envelope ι) (lsa : Lsa) : e ∈ s.flight → e.message = .lsa lsa →
    ∃ x ∈ log, x.dest = e.dest ∧ x.lsa = lsa
  crossed (x : Crossing ι) : x ∈ log → Carries x.link x.lsa ∧
    ∀ info, x.lsa.body = .endpoint info → Brought ids log x.lsa x.sender

variable {wire : Wiring ι} {ids : ι → NodeId} {s s₀ s' : Net ι} {log out : List (Crossing ι)}

theorem Contained.without (h : Contained ids s log) (e : Envelope ι) :
    Contained ids (s.without e) log where
  self := h.self
  ok := h.ok
  channels := h.channels
  stored := h.stored
  onWay e' lsa he' := h.onWay e' lsa (List.mem_of_mem_erase he')
  crossed := h.crossed

theorem Contained.settle (h : Contained ids s log) {i : ι} (hs : SettlesAt i s s') :
    Contained ids s' log := by
  obtain ⟨db', hdb, rfl⟩ := hs
  obtain ⟨hself, hrec, hlink⟩ := hdb.frame
  have hframe : ∀ j, ((Function.update s.db i db') j).selfId = (s.db j).selfId ∧
      (∀ k, ((Function.update s.db i db') j).db.get k = (s.db j).db.get k) ∧
      ∀ c, ((Function.update s.db i db') j).links.get c = (s.db j).links.get c := by
    intro j
    by_cases hj : j = i
    · subst hj
      rw [Function.update_self]
      exact ⟨hself, hrec, hlink⟩
    · rw [Function.update_of_ne hj]
      exact ⟨rfl, fun _ => rfl, fun _ => rfl⟩
  refine ⟨fun j => (hframe j).1.trans (h.self j), fun j => ⟨fun k r hr => ?_, fun c l hl => ?_⟩,
    fun j c c' l l' hl hl' => ?_, fun j k r info hr => ?_, h.onWay, h.crossed⟩
  · exact (h.ok j).record_key k r ((hframe j).2.1 k ▸ hr)
  · exact (h.ok j).link_id c l ((hframe j).2.2 c ▸ hl)
  · exact h.channels j c c' l l' ((hframe j).2.2 c ▸ hl) ((hframe j).2.2 c' ▸ hl')
  · exact h.stored j k r info ((hframe j).2.1 k ▸ hr)

theorem Takes.contained {i : ι} {op : Op} (ht : Takes s i op s₀) (h : Contained ids s log) :
    Contained ids s₀ log := by
  cases ht with
  | own _ _ => exact h
  | lsa _ => exact h.without _
  | ack _ => exact h.without _

theorem Takes.db_eq {i : ι} {op : Op} (ht : Takes s i op s₀) : s₀.db = s.db := by
  cases ht <;> rfl

/-- What a node may hand out was brought to it. -/
theorem Takes.brought {i : ι} {op : Op} (ht : Takes s i op s₀) (h : Contained ids s log) {lsa : Lsa}
    {info : EndpointInfo} (hb : lsa.body = .endpoint info) (ho : (s.db i).Offered op lsa) :
    Brought ids log lsa i := by
  rcases ho with hown | ⟨k, r, hr, rfl⟩ | ⟨c, rfl⟩
  · exact ⟨i, [], by rw [hown, h.self], .nil, by simp⟩
  · exact h.stored i k r info hr hb
  · cases ht with
    | own hlocal _ => exact hlocal.elim
    | lsa hmem =>
      obtain ⟨x, hx, hdest, rfl⟩ := h.onWay _ _ hmem rfl
      obtain ⟨hcarry, hsender⟩ := h.crossed x hx
      have hbrought := (hsender info hb).cross hx hcarry
      rwa [hdest] at hbrought

/-- Links that are up around an operation do not share a channel. -/
theorem Takes.channels {i : ι} {op : Op} (ht : Takes s i op s₀) (h : Contained ids s log)
    {w w' : Wires} {now : Instant} {db' : LsDb} (hstep : (s.db i).step w now op = some (db', w'))
    {l l' : Link} (hl : (s.db i).Live db' l) (hl' : (s.db i).Live db' l') (htx : l.tx = l'.tx) :
    l = l' := by
  have hcases : ∀ {l}, (s.db i).Live db' l → (∃ c, (s.db i).links.get c = some l) ∨ op = .addPeer l := by
    rintro l ⟨c, hc | hc⟩
    · exact .inl ⟨c, hc⟩
    · rcases LsDb.step_links hstep hc with hc | ⟨hop, -⟩
      · exact .inl ⟨c, hc⟩
      · exact .inr hop
  have hfresh : ∀ {link}, op = .addPeer link → ∀ c l, (s.db i).links.get c = some l →
      l.tx ≠ link.tx := by
    rintro link rfl
    cases ht with
    | own _ hfresh => exact hfresh link rfl
  rcases hcases hl with ⟨c, hc⟩ | hop
  · rcases hcases hl' with ⟨c', hc'⟩ | hop'
    · exact h.channels i c c' l l' hc hc' htx
    · exact absurd htx (hfresh hop' c l hc)
  · rcases hcases hl' with ⟨c', hc'⟩ | hop'
    · exact absurd htx.symm (hfresh hop c' l' hc')
    · rw [hop] at hop'
      cases hop'
      rfl

/-- An operation puts on a link only what the link carries and what was brought to its node. -/
theorem Takes.crossed {i : ι} {op : Op} (ht : Takes s i op s₀) (h : Contained ids s log)
    {w w' : Wires} {now : Instant} {db' : LsDb} (hw : w.Drained)
    (hstep : (s.db i).step w now op = some (db', w')) {x : Crossing ι}
    (hx : x ∈ crossings wire i ((s.db i).live db') w') :
    x.sender = i ∧ Carries x.link x.lsa ∧
      ∀ info, x.lsa.body = .endpoint info → Brought ids log x.lsa i := by
  obtain ⟨hsender, hlink, hmem, -⟩ := mem_crossings.mp hx
  rcases LsDb.step_queues (h.ok i) hstep _ _ hmem with hold | ⟨link, lsa₀, hlive, htx, ho, hp⟩
  · rw [hw] at hold
    cases hold
  · obtain rfl : link = x.link := ht.channels h hstep hlive (LsDb.mem_live.mp hlink) htx
    obtain ⟨hcarry, hsame⟩ := carries_of_permits hp
    refine ⟨hsender, hcarry, fun info hb => ?_⟩
    have heq := hsame info hb
    exact ht.brought h hb (heq ▸ ho)

/-- Every operation keeps the endpoints contained. -/
theorem Contained.takes (h : Contained ids s log) {i : ι} {op : Op} {w : Wires} {now : Instant}
    (ht : Takes s i op s₀) (hw : w.Drained) (hp : s₀.perform wire w now i op = some (s', out)) :
    Contained ids s' (log ++ out) := by
  obtain ⟨⟨db', w'⟩, hstep, heq⟩ := Option.map_eq_some_iff.mp hp
  obtain ⟨rfl, rfl⟩ := Prod.mk.inj heq
  rw [ht.db_eq] at hstep ⊢
  have hadv := LsDb.step_advances (h.ok i) hstep
  have hlog : ∀ x ∈ log, x ∈ log ++ crossings wire i ((s.db i).live db') w' :=
    fun x hx => List.mem_append_left _ hx
  refine ⟨fun j => ?_, fun j => ?_, fun j c c' l l' hl hl' htx => ?_, fun j k r info hr hb => ?_,
    fun e lsa he hm => ?_, fun x hx => ?_⟩
  · by_cases hj : j = i
    · subst hj
      simpa using hadv.self_eq.trans (h.self j)
    · simpa [hj] using h.self j
  · by_cases hj : j = i
    · subst hj
      simpa using hadv.ok
    · simpa [hj] using h.ok j
  · by_cases hj : j = i
    · subst hj
      simp only [Function.update_self] at hl hl'
      exact ht.channels h hstep ⟨c, .inr hl⟩ ⟨c', .inr hl'⟩ htx
    · simp only [Function.update_of_ne hj] at hl hl'
      exact h.channels j c c' l l' hl hl' htx
  · refine Brought.mono hlog ?_
    by_cases hj : j = i
    · subst hj
      simp only [Function.update_self] at hr
      exact ht.brought h hb (LsDb.step_stores (h.ok j) hstep hr)
    · simp only [Function.update_of_ne hj] at hr
      exact h.stored j k r info hr hb
  · rcases List.mem_append.mp he with he | he
    · obtain ⟨x, hx, hdest, hlsa⟩ := (ht.contained h).onWay e lsa he hm
      exact ⟨x, hlog x hx, hdest, hlsa⟩
    · obtain ⟨link, hlink, hmem, hwire⟩ := mem_queued.mp he
      refine ⟨⟨i, link, e.dest, e.connectionId, lsa⟩, List.mem_append_right _ ?_, rfl, rfl⟩
      exact mem_crossings.mpr ⟨rfl, hlink, hm ▸ hmem, hwire⟩
  · rcases List.mem_append.mp hx with hx | hx
    · obtain ⟨hcarry, hsender⟩ := h.crossed x hx
      exact ⟨hcarry, fun info hb => (hsender info hb).mono hlog⟩
    · obtain ⟨rfl, hcarry, hsender⟩ := ht.crossed h hw hstep hx
      exact ⟨hcarry, fun info hb => (hsender info hb).mono hlog⟩

/-- Endpoints are contained in every run. -/
theorem Reaches.contained (h : Reaches wire ids s log) : Contained ids s log := by
  induction h with
  | start now =>
    refine ⟨fun i => rfl, fun i => LsDb.Ok.new _ _, fun i c c' l l' hl => ?_,
      fun i k r info hr hb => ?_, fun e lsa he => ?_, fun x hx => ?_⟩
    · simp [LsDb.new] at hl
    · simp only [LsDb.new, HashMap.get_insert] at hr
      split at hr
      · obtain rfl := Option.some.inj hr
        cases hb
      · simp at hr
    · cases he
    · cases hx
  | settle i _ hs ih => exact ih.settle hs
  | lose e _ ih => exact ih.without e
  | takes now i op _ ht hw hp ih => exact ih.takes ht hw hp

/-- A node that knows an endpoint of another one got it over links that were up when the LSA
crossed them and list its realm; an adjacency on a link has a realm, and only realms of that
link. So nobody else knows an endpoint of the process if no link lists that realm, and an
endpoint of the user's never crosses a link that is only global. -/
theorem realms_contain (h : Reaches wire ids s log) :
    (∀ i k r info, (s.db i).db.get k = some r → r.lsa.body = .endpoint info →
      r.lsa.key.origin ≠ ids i → ∃ o path, ids o = r.lsa.key.origin ∧ path ≠ [] ∧
        Trail log r.lsa o i path ∧ ∀ x ∈ path, info.realm ∈ x.link.realms) ∧
    (∀ x ∈ log, ∀ adjs, x.lsa.body = .router adjs →
      ∀ adj ∈ adjs, adj.realms ≠ ∅ ∧ adj.realms ⊆ x.link.realms) ∧
    ((∀ x ∈ log, .process ∉ x.link.realms) → ∀ i k r info, (s.db i).db.get k = some r →
      r.lsa.body = .endpoint info → info.realm = .process → r.lsa.key.origin = ids i) ∧
    (∀ x ∈ log, ∀ info, x.lsa.body = .endpoint info → info.realm = .userspace →
      x.link.realms ≠ {.global}) := by
  have hc := h.contained
  have hpath : ∀ i k r info, (s.db i).db.get k = some r → r.lsa.body = .endpoint info →
      r.lsa.key.origin ≠ ids i → ∃ o path, ids o = r.lsa.key.origin ∧ path ≠ [] ∧
        Trail log r.lsa o i path ∧ ∀ x ∈ path, info.realm ∈ x.link.realms := by
    intro i k r info hr hb hne
    obtain ⟨o, path, ho, htrail, hcarry⟩ := hc.stored i k r info hr hb
    refine ⟨o, path, ho, fun hnil => ?_, htrail, fun x hx => (carries_endpoint hb).mp (hcarry x hx)⟩
    cases htrail with
    | nil => exact hne ho.symm
    | snoc x _ _ _ => simp at hnil
  refine ⟨hpath, fun x hx adjs hb => ?_, fun hno i k r info hr hb hrealm => ?_,
    fun x hx info hb hrealm heq => ?_⟩
  · exact (carries_router hb).mp (hc.crossed x hx).1
  · by_contra hne
    obtain ⟨o, path, -, hnil, htrail, hcarry⟩ := hpath i k r info hr hb hne
    cases htrail with
    | nil => exact hnil rfl
    | snoc x _ hx _ =>
      have hx' := hcarry x (List.mem_append_right _ (List.mem_singleton_self x))
      rw [hrealm] at hx'
      exact hno x hx hx'
  · have hcarry := (carries_endpoint hb).mp (hc.crossed x hx).1
    rw [hrealm, heq] at hcarry
    simp at hcarry

/-- The two nodes of the example below. -/
def pairIds (i : Bool) : NodeId := if i then 2 else 1

/-- Each end of their only link leads to the other. -/
def pairWire : Wiring Bool := fun i _ => (!i, 1)

def pairLink (i : Bool) : Link := ⟨0, pairIds !i, 1, {.userspace, .global}, ⟨10, Cost.ten_le_max⟩⟩

/-- An operation of one of them. -/
def pairStep (s : Net Bool) (i : Bool) (op : Op) : Net Bool × List (Crossing Bool) :=
  (s.perform pairWire (.idle 32) 0 i op).getD (s, [])

theorem pairStep_reaches {s s₀ : Net Bool} {log : List (Crossing Bool)} (i : Bool) (op : Op)
    (h : Reaches pairWire pairIds s log) (ht : Takes s i op s₀)
    (hp : (s₀.perform pairWire (.idle 32) 0 i op).isSome = true) :
    Reaches pairWire pairIds (pairStep s₀ i op).1 (log ++ (pairStep s₀ i op).2) := by
  refine h.takes 0 i op ht (Wires.drained_idle 32) ?_
  obtain ⟨r, hr⟩ := Option.isSome_iff_exists.mp hp
  rw [pairStep, hr, Option.getD_some]

/-- Both ends of the link are up. -/
def pairUp : Net Bool :=
  (pairStep (pairStep ⟨fun i => .new (pairIds i) 0, []⟩ false (.addPeer (pairLink false))).1 true
    (.addPeer (pairLink true))).1

/-- The first node has a listener for the user's processes. -/
def pairListens : Net Bool :=
  (pairStep pairUp false (.addEndpoint ⟨5, ⟨.unicast, .userspace, 0⟩, 7⟩)).1

/-- The LSA of that listener. -/
def pairLsa : Lsa := ⟨⟨1, 5⟩, 0, false, .endpoint ⟨.unicast, .userspace, 0⟩⟩

/-- The second node has heard of it. -/
def pairKnows : Net Bool :=
  (pairStep (pairListens.without ⟨true, 1, .lsa pairLsa⟩) true (.handleLsa pairLsa 1)).1

theorem userspace_endpoint_brought :
    (pairKnows.db true).db.get ⟨1, 5⟩ = some ⟨pairLsa, 0⟩ ∧ ∃ log, Reaches pairWire pairIds pairKnows log ∧
      ∃ o path, pairIds o = 1 ∧ path ≠ [] ∧ Trail log pairLsa o true path ∧
        ∀ x ∈ path, .userspace ∈ x.link.realms := by
  have hstored : (pairKnows.db true).db.get ⟨1, 5⟩ = some ⟨pairLsa, 0⟩ := by decide +kernel
  have h₀ : Reaches pairWire pairIds ⟨fun i => .new (pairIds i) 0, []⟩ [] := .start fun _ => 0
  have h₁ := pairStep_reaches false (.addPeer (pairLink false)) h₀
    (.own trivial (by intro _ _ c l h; cases h)) (by decide +kernel)
  have h₂ := pairStep_reaches true (.addPeer (pairLink true)) h₁
    (.own trivial (by intro _ _ c l h; cases h)) (by decide +kernel)
  have h₃ := pairStep_reaches false (.addEndpoint ⟨5, ⟨.unicast, .userspace, 0⟩, 7⟩) h₂
    (.own trivial (by simp)) (by decide +kernel)
  have h₄ := pairStep_reaches true (.handleLsa pairLsa 1) h₃ (.lsa (by decide +kernel))
    (by decide +kernel)
  refine ⟨hstored, _, h₄, ?_⟩
  exact (realms_contain h₄).1 true ⟨1, 5⟩ ⟨pairLsa, 0⟩ _ hstored rfl (by decide)

end Net

end Anybus
