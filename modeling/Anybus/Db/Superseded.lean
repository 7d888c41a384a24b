import Anybus.Db.Pending

/-!
# What becomes of superseded advertisements

A neighbour holds what was last sent on its link. When the node takes up a newer version,
or a withdrawal, it floods it to every link that the flood does not pass by. What the
realms of a link leave nothing of is not sent, and then the neighbour keeps the older
version; as long as something is left of every newer version, no neighbour is left behind.
-/

namespace Anybus

/-- What can happen on a connection: an LSA is sent, or a version is taken up that is due
on it. -/
inductive LinkEvent where
  | sent (lsa : Lsa)
  | version (lsa : Lsa)
  deriving DecidableEq

namespace LinkEvent

/-- The LSAs sent. -/
def sentLsas (history : List LinkEvent) : List Lsa :=
  history.filterMap fun
    | sent lsa => some lsa
    | version _ => none

/-- The neighbour was sent an older alive version and no withdrawal since. -/
def Holds (history : List LinkEvent) (lsa : Lsa) : Prop :=
  ∃ before old after, sentLsas history = before ++ old :: after ∧ old.key = lsa.key ∧
    old.dead = false ∧ old.seq < lsa.seq ∧ ∀ l ∈ after, l.key = lsa.key → l.dead = false

/-- Whenever a version was taken up that supersedes what the neighbour holds, it or a
withdrawal was sent after that. -/
def Propagated (history : List LinkEvent) : Prop :=
  ∀ before lsa after, history = before ++ version lsa :: after → Holds before lsa →
    ∃ l, sent l ∈ after ∧ l.key = lsa.key ∧ (l.seq = lsa.seq ∨ l.dead = true)

theorem sentLsas_versions (lsas : List Lsa) : sentLsas (lsas.map version) = [] := by
  apply List.filterMap_eq_nil_iff.mpr
  intro e he
  obtain ⟨lsa, -, rfl⟩ := List.mem_map.mp he
  rfl

/-- A history stays propagated when what is due is sent at once. -/
theorem Propagated.append {history : List LinkEvent} (h : Propagated history) {versions sents : List Lsa}
    (hsent : ∀ lsa ∈ versions, Holds history lsa →
      ∃ l ∈ sents, l.key = lsa.key ∧ (l.seq = lsa.seq ∨ l.dead = true)) :
    Propagated (history ++ versions.map version ++ sents.map sent) := by
  intro before lsa after heq hholds
  have hnot : ∀ l : List Lsa, version lsa ∉ l.map sent := by
    intro l hmem
    obtain ⟨_, -, heq⟩ := List.mem_map.mp hmem
    cases heq
  -- The version is one of the new ones.
  have hnew : ∀ first, versions.map version ++ sents.map sent = first ++ version lsa :: after →
      Holds (history ++ first) lsa →
      ∃ l, sent l ∈ after ∧ l.key = lsa.key ∧ (l.seq = lsa.seq ∨ l.dead = true) := by
    intro first heq hholds
    obtain ⟨rest, hversions, hrest⟩ : ∃ rest, versions.map version = first ++ version lsa :: rest ∧
        after = rest ++ sents.map sent := by
      rcases List.append_eq_append_iff.mp heq with ⟨a, -, hs⟩ | ⟨a, hv, hs⟩
      · exact absurd (hs ▸ List.mem_append_right _ List.mem_cons_self) (hnot sents)
      · rcases List.cons_eq_append_iff.mp hs with ⟨-, hnil⟩ | ⟨rest, rfl, hrest⟩
        · exact absurd (hnil ▸ List.mem_cons_self) (hnot sents)
        · exact ⟨rest, hv, hrest⟩
    have hfirst : sentLsas first = [] := by
      have hall := sentLsas_versions versions
      rw [hversions, sentLsas, List.filterMap_append] at hall
      exact (List.append_eq_nil_iff.mp hall).1
    have hmem : lsa ∈ versions := by
      have hin : version lsa ∈ versions.map version :=
        hversions ▸ List.mem_append_right _ List.mem_cons_self
      obtain ⟨lsa', hmem, heq⟩ := List.mem_map.mp hin
      rwa [← version.inj heq]
    have hholds' : Holds history lsa := by
      obtain ⟨b, old, a, hl, hrest⟩ := hholds
      rw [sentLsas, List.filterMap_append, ← sentLsas, ← sentLsas, hfirst, List.append_nil] at hl
      exact ⟨b, old, a, hl, hrest⟩
    obtain ⟨l, hl, hcond⟩ := hsent lsa hmem hholds'
    exact ⟨l, hrest ▸ List.mem_append_right _ (List.mem_map_of_mem hl), hcond⟩
  rw [List.append_assoc] at heq
  rcases List.append_eq_append_iff.mp heq with ⟨a, rfl, hrest⟩ | ⟨a, hhist, hrest⟩
  · exact hnew a hrest hholds
  · rcases List.cons_eq_append_iff.mp hrest with ⟨rfl, hnil⟩ | ⟨rest, rfl, rfl⟩
    · rw [List.append_nil] at hhist
      subst hhist
      exact hnew [] hnil (by rwa [List.append_nil])
    · obtain ⟨l, hl, hcond⟩ := h before lsa rest hhist hholds
      exact ⟨l, List.mem_append_left _ hl, hcond⟩

end LinkEvent

namespace LsDb

/-- A version of an LSA that an operation accepts or originates: what is stored afterwards
and is newer than what was, and the withdrawals. -/
inductive NewVersion (db db' : LsDb) : Op → Lsa → Prop where
  | stored {op : Op} {k : LsaKey} {r : LsaRecord} (hr : db'.db.get k = some r)
      (hnew : ∀ r₀, db.db.get k = some r₀ → r₀.lsa.seq < r.lsa.seq) : NewVersion db db' op r.lsa
  | died {lsa : Lsa} {c : ConnectionId} {r : LsaRecord} (ho : lsa.key.origin ≠ db.selfId)
      (hd : lsa.dead = true) (hr : db.db.get lsa.key = some r) (hlt : r.lsa.seq < lsa.seq) :
      NewVersion db db' (.handleLsa lsa c) lsa
  | withdrawn {e : EndpointId} {r : LsaRecord} (hr : db.db.get ⟨db.selfId, e⟩ = some r)
      (hnone : db'.db.get ⟨db.selfId, e⟩ = none) :
      NewVersion db db' (.removeEndpoint e) (withdrawal r)
  | left {r : LsaRecord} (hr : db.db.get db.selfKey = some r) : NewVersion db db' .shutdown (withdrawal r)

/-- The links a flood passes by: the inbound link, the origin and the way back to it. -/
def Exempt (db : LsDb) (op : Op) (lsa : Lsa) (c : ConnectionId) (link : Link) : Prop :=
  (op = .handleLsa lsa c ∧ lsa.dead = false) ∨ lsa.key.origin = link.peerId ∨
    db.isBackPath lsa.key.origin link = true

/-- A version is taken up that is due on a connection. -/
def Due (db db' : LsDb) (op : Op) (c : ConnectionId) (link : Link) (lsa : Lsa) : Prop :=
  db.links.get c = some link ∧ (db'.links.get c = some link ∨ op = .shutdown) ∧
    NewVersion db db' op lsa ∧ ¬ db.Exempt op lsa c link

/-- The LSAs an operation has sent on a connection. -/
def sentOn (db db' : LsDb) (w w' : Wires) (c : ConnectionId) : List Lsa :=
  match upLink db db' c with
  | some link => newLsas w w' link.tx
  | none => []

/-- No channel of a link was closed or has become full. -/
def NeverFull (db db' : LsDb) (w w' : Wires) : Prop :=
  ∀ c link, upLink db db' c = some link → (w.node link.tx).closed = false ∧
    (w'.node link.tx).queue.length < (w'.node link.tx).capacity

/-- The realms of a link leave something of every version that supersedes what its
neighbour holds, and the node leaves with a router LSA. -/
def FilterLeaves (history : ConnectionId → List LinkEvent) (db db' : LsDb) (op : Op) : Prop :=
  ∀ c link lsa, Due db db' op c link lsa → LinkEvent.Holds (history c) lsa →
    (link.permits lsa).isSome ∧ (op = .shutdown → ∃ adjs, lsa.body = .router adjs)

/-- The states a fresh database can reach over links that are never full or closed, with
what was sent on each connection and what was due on it. A connection that gets another
link starts anew. -/
inductive Observed (allowed : (ConnectionId → List LinkEvent) → LsDb → LsDb → Op → Prop)
    (selfId : NodeId) : LsDb → (ConnectionId → List LinkEvent) → Prop where
  | new (now : Instant) : Observed allowed selfId (LsDb.new selfId now) fun _ => []
  | rehash {db db' : LsDb} {history : ConnectionId → List LinkEvent} :
      Observed allowed selfId db history → Rehash db db' → Observed allowed selfId db' history
  | step {db db' : LsDb} {history : ConnectionId → List LinkEvent} (w : Wires) {w' : Wires}
      (now : Instant) (op : Op) (versions : ConnectionId → List Lsa) :
      Observed allowed selfId db history → db.OwnChannel op → db.step w now op = some (db', w') →
      NeverFull db db' w w' →
      (∀ c, ∀ lsa ∈ versions c, ∃ link, Due db db' op c link lsa) → allowed history db db' op →
      Observed allowed selfId db' fun c =>
        (if db'.links.get c = db.links.get c ∨ db'.links.get c = none then history c else []) ++
          (versions c).map .version ++ (sentOn db db' w w' c).map .sent

section Flooded

variable {db db' : LsDb} {w w' : Wires} {now : Instant} {op : Op}

/-- What replacing a record stores afresh is the next version. -/
theorem replaced_new {key : LsaKey} {o : Option Lsa} {k : LsaKey} {r : LsaRecord}
    (hr : (db.replaced key now o).get k = some r)
    (hnew : ∀ r₀, db.db.get k = some r₀ → r₀.lsa.seq < r.lsa.seq) : o = some r.lsa := by
  have hold : db.db.get k ≠ some r := fun hr => absurd (hnew r hr) (Nat.lt_irrefl _)
  cases o with
  | none => exact absurd hr hold
  | some lsa =>
    rw [replaced, HashMap.get_insert] at hr
    split at hr
    · rw [← Option.some.inj hr]
    · exact absurd hr hold

/-- Replacing a record forgets nothing. -/
theorem replaced_none {key : LsaKey} {o : Option Lsa} {k : LsaKey}
    (h : (db.replaced key now o).get k = none) : db.db.get k = none := by
  cases o with
  | none => exact h
  | some lsa =>
    rw [replaced, HashMap.get_insert] at h
    split at h
    · cases h
    · exact h

/-- What carrying out an effect of the route table stores afresh is a first version or is
flooded. -/
theorem carriedOut_new {effect : Effects} {k : LsaKey} {r : LsaRecord}
    (hr : (db.carriedOut now effect).get k = some r)
    (hnew : ∀ r₀, db.db.get k = some r₀ → r₀.lsa.seq < r.lsa.seq) (hpos : 0 < r.lsa.seq) :
    r.lsa ∈ db.effectLsas effect := by
  have hold : db.db.get k ≠ some r := fun hr => absurd (hnew r hr) (Nat.lt_irrefl _)
  cases effect with
  | addLsa e info =>
    rw [carriedOut, HashMap.get_insert] at hr
    split at hr
    · rw [← Option.some.inj hr] at hpos
      exact absurd hpos (Nat.lt_irrefl 0)
    · exact absurd hr hold
  | updateLsa e cost =>
    rw [carriedOut, recosted_eq] at hr
    exact Option.mem_toList.mpr (replaced_new hr hnew)
  | removeLsa e =>
    simp only [carriedOut] at hr
    split at hr
    · rw [HashMap.get_erase] at hr
      split at hr
      · cases hr
      · exact absurd hr hold
    · exact absurd hr hold
  | rebuildFib => exact absurd hr hold
  | noop => exact absurd hr hold

/-- What a refresh stores afresh is flooded. -/
theorem refreshAll_new {k : LsaKey} {r : LsaRecord} (hr : (db.refreshAll now).db.get k = some r)
    (hnew : ∀ r₀, db.db.get k = some r₀ → r₀.lsa.seq < r.lsa.seq) : r.lsa ∈ db.refreshedLsas now := by
  rw [refreshAll, HashMap.get_mapValues] at hr
  obtain ⟨r₀, hr₀, rfl⟩ := Option.map_eq_some_iff.mp hr
  have hlt := hnew r₀ hr₀
  cases hdue : db.dueForRefresh now r₀ with
  | false =>
    rw [refreshed, if_neg (by simp [hdue])] at hlt
    exact absurd hlt (Nat.lt_irrefl _)
  | true =>
    apply List.mem_map.mpr
    exact ⟨r₀, List.mem_filter.mpr ⟨HashMap.mem_values_iff.mpr ⟨k, hr₀⟩, hdue⟩, rfl⟩

/-- What a tick stores afresh is flooded. -/
theorem tick_new {b : Bool} (h : db.tick w now = some (db', w', b)) {k : LsaKey} {r : LsaRecord}
    (hr : db'.db.get k = some r)
    (hnew : ∀ r₀, db.db.get k = some r₀ → r₀.lsa.seq < r.lsa.seq) :
    (r.lsa, none) ∈ db.floods w now .tick := by
  simp only [floods]
  unfold LsDb.tick at h
  simp only at h
  split at h
  · next d w'' hd =>
    have hrecords : db'.db = d.db := by
      split at h
      · rw [← (Prod.mk.inj (Option.some.inj h)).1]
      · rw [← (Prod.mk.inj (Option.some.inj h)).1]
    rw [hrecords] at hr
    split at hd
    · next hdue =>
      rw [if_pos hdue]
      obtain ⟨-, m, hparts, hm⟩ := refreshAndPurgeLsas_parts hd
      have hdm : d.db = m := congrArg Parts.records hparts
      rw [hdm] at hr
      refine List.mem_map_of_mem (refreshAll_new ?_ hnew)
      rcases hm with rfl | ⟨key, -, rfl⟩
      · exact hr
      · rw [HashMap.get_erase] at hr
        split at hr
        · cases hr
        · exact hr
    · rw [← (Prod.mk.inj (Option.some.inj hd)).1] at hr
      exact absurd (hnew r hr) (Nat.lt_irrefl _)
  · cases h

theorem changeAnycastCost_new {e : EndpointId} {sender : Sender} {cost : Cost} {k : LsaKey}
    {r : LsaRecord} (hr : (db.changeAnycastCost w e sender cost now).1.db.get k = some r)
    (hnew : ∀ r₀, db.db.get k = some r₀ → r₀.lsa.seq < r.lsa.seq) :
    (r.lsa, none) ∈ db.floods w now (.setAnycastCost e sender cost) := by
  have hold : db.db.get k ≠ some r := fun hr => absurd (hnew r hr) (Nat.lt_irrefl _)
  simp only [floods]
  unfold changeAnycastCost setAnycastCost at hr
  cases hset : db.routes.setAnycastCost e sender cost with
  | error err =>
    simp only [hset] at hr
    exact absurd hr hold
  | ok p =>
    obtain ⟨t, outcome⟩ := p
    simp only [hset] at hr ⊢
    cases outcome with
    | unchanged => exact absurd hr hold
    | changed previous current minCost =>
      cases minCost with
      | none => exact absurd hr hold
      | some m =>
        have hparts := (updateEndpointCost_parts { db with routes := t } w now e m).1
        have hrecords := congrArg Parts.records hparts
        change (LsDb.db _).get k = some r at hr
        rw [show LsDb.db _ = _ from hrecords, recosted_eq] at hr
        exact List.mem_map_of_mem (Option.mem_toList.mpr (replaced_new hr hnew))

/-- Every version but the first of an own endpoint is flooded, and passes by no connection but
that of the neighbour it came from or of a new peer. -/
theorem NewVersion.flooded {lsa : Lsa} (hv : NewVersion db db' op lsa)
    (h : db.step w now op = some (db', w')) (hpos : 0 < lsa.seq)
    (hshut : op = .shutdown → ∃ adjs, lsa.body = .router adjs) :
    ∃ inC, (lsa, inC) ∈ db.floods w now op ∧ ∀ c, inC = some c →
      (op = .handleLsa lsa c ∧ lsa.dead = false) ∨ ∃ link, op = .addPeer link ∧ link.connectionId = c := by
  cases hv with
  | @stored _ k r hr hnew =>
    have hold : db.db.get k ≠ some r := fun hr => absurd (hnew r hr) (Nat.lt_irrefl _)
    cases op with
    | addEndpoint request =>
      have hchange := (step_change h).2
      have hrec : db'.parts.records.get k = some r := hr
      generalize db'.parts = parts at hchange hrec
      cases hchange with
      | quiet => exact absurd hrec hold
      | @addEndpoint _ t effect hadd =>
        have hmem := carriedOut_new hrec hnew hpos
        refine ⟨none, ?_, fun c hc => by cases hc⟩
        simp only [floods, hadd]
        obtain ⟨-, -, -, ⟨-, rfl⟩ | ⟨-, -, rfl⟩ | ⟨-, -, rfl | rfl⟩⟩ := RouteTable.addEndpoint_spec hadd
        · cases hmem
        · cases hmem
        · cases hmem
        · exact List.mem_map_of_mem hmem
    | removeEndpoint e =>
      have hchange := (step_change h).2
      have hrec : db'.parts.records.get k = some r := hr
      generalize db'.parts = parts at hchange hrec
      cases hchange with
      | quiet => exact absurd hrec hold
      | removeEndpoint =>
        exact ⟨none, List.mem_map_of_mem (carriedOut_new hrec hnew hpos), fun c hc => by cases hc⟩
    | setAnycastCost e sender cost =>
      obtain ⟨rfl, -⟩ := Prod.mk.inj (Option.some.inj h)
      exact ⟨none, changeAnycastCost_new hr hnew, fun c hc => by cases hc⟩
    | addPeer link =>
      have hchange := (step_change h).2
      have hrec : db'.parts.records.get k = some r := hr
      generalize db'.parts = parts at hchange hrec
      cases hchange with
      | quiet => exact absurd hrec hold
      | addPeer hb =>
        refine ⟨some link.connectionId, ?_, fun c hc => .inr ⟨link, rfl, Option.some.inj hc⟩⟩
        simp only [floods, hb]
        rw [HashMap.get_insert] at hrec
        split at hrec
        · rw [← Option.some.inj hrec]
          exact List.mem_singleton_self _
        · exact absurd hrec hold
    | removePeer c =>
      have hchange := (step_change h).2
      have hrec : db'.parts.records.get k = some r := hr
      generalize db'.parts = parts at hchange hrec
      cases hchange with
      | quiet => exact absurd hrec hold
      | removePeer hl =>
        refine ⟨none, ?_, fun c hc => by cases hc⟩
        simp only [floods, hl]
        rw [withoutAdjacency_eq] at hrec
        exact List.mem_map_of_mem (Option.mem_toList.mpr (replaced_new hrec hnew))
    | handleLsa lsa' c =>
      have hh := handleLsa_handled h
      cases hh with
      | ignored => exact absurd hr hold
      | unknownDeath => exact absurd hr hold
      | died => exact absurd (get_withoutDead hr).2 hold
      | stored ho hd hnew' =>
        have hins : (db.db.insert lsa'.key ⟨lsa', now⟩).get k = some r := hr
        rw [HashMap.get_insert] at hins
        split at hins
        · obtain rfl := Option.some.inj hins
          refine ⟨some c, ?_, fun c' hc' => .inl ⟨by rw [Option.some.inj hc'], hd⟩⟩
          simp only [floods, if_neg ho]
          cases hget : db.db.get lsa'.key with
          | none => simp [hd]
          | some r₀ => simp [hd, hnew' r₀ hget]
        · exact absurd hins hold
    | handleAck sender key seq =>
      obtain ⟨rfl, -⟩ := Prod.mk.inj (Option.some.inj h)
      obtain ⟨p, hp⟩ := handleAck_frame db sender key seq
      rw [hp] at hr
      exact absurd hr hold
    | tick =>
      obtain ⟨⟨d, v, b⟩, htick, heq⟩ := Option.map_eq_some_iff.mp h
      cases heq
      exact ⟨none, tick_new htick hr hnew, fun c hc => by cases hc⟩
    | buildFib =>
      obtain ⟨⟨d, fib⟩, hfib, heq⟩ := Option.map_eq_some_iff.mp h
      cases heq
      obtain ⟨s, _, rfl, _⟩ := buildFib_eq_some_iff.mp hfib
      exact absurd hr hold
    | shutdown =>
      obtain ⟨rfl, -⟩ := Prod.mk.inj (Option.some.inj h)
      change (∅ : HashMap LsaKey LsaRecord).get k = some r at hr
      simp at hr
  | @died _ c r ho hd hr hlt =>
    refine ⟨none, ?_, fun c hc => by cases hc⟩
    simp [floods, if_neg ho, hr, hlt, hd]
  | @withdrawn e r hr hnone =>
    refine ⟨none, ?_, fun c hc => by cases hc⟩
    have hchange := (removeEndpoint_parts db w now e).2
    rw [show db.removeEndpoint w e now = (db', w') from Option.some.inj h] at hchange
    have hrecords : db'.db = db.carriedOut now (db.routes.removeEndpoint w e).2 :=
      congrArg Parts.records hchange
    apply List.mem_map_of_mem
    rw [hrecords] at hnone
    have hgone : db.db.get ⟨db.selfId, e⟩ ≠ none := by rw [hr]; simp
    rcases db.routes.removeEndpoint_cases w e with
      ⟨-, heq⟩ | ⟨-, ⟨heq, -⟩ | ⟨heq | heq | ⟨c, heq⟩, -⟩⟩
    · rw [heq] at hnone
      exact absurd hnone hgone
    · rw [heq, effectLsas, hr]
      exact List.mem_singleton_self _
    · rw [heq] at hnone
      exact absurd hnone hgone
    · rw [heq] at hnone
      exact absurd hnone hgone
    · rw [heq] at hnone
      rw [carriedOut, recosted_eq] at hnone
      exact absurd (replaced_none hnone) hgone
  | @left r hr =>
    obtain ⟨adjs, hb⟩ := hshut rfl
    refine ⟨none, ?_, fun c hc => by cases hc⟩
    simp only [floods, hr]
    rw [show r.lsa.body = .router adjs from hb]
    exact List.mem_singleton_self _

/-- A link that stays up is one the floods go to. -/
theorem floodLinks_get (h : db.step w now op = some (db', w')) {f : Lsa × Option ConnectionId}
    (hf : f ∈ db.floods w now op) {c : ConnectionId} {link : Link} (hc : db.links.get c = some link)
    (hc' : db'.links.get c = some link ∨ op = .shutdown) : (db.floodLinks op).get c = some link := by
  cases op with
  | addPeer link' =>
    have hkeep := hc'.resolve_right (by simp)
    have hstep : db.addPeer w link' now = (db', w') := Option.some.inj h
    rcases addPeer_cases db w link' now with ⟨info, hb, -⟩ | ⟨adjs, -, heq⟩
    · simp [floods, hb] at hf
    · rw [heq] at hstep
      rw [← (Prod.mk.inj hstep).1] at hkeep
      exact hkeep
  | removePeer c' =>
    have hkeep := hc'.resolve_right (by simp)
    rw [get_links_removePeer h] at hkeep
    simp only [floodLinks, HashMap.get_erase]
    exact hkeep
  | _ => exact hc

/-- A flood hands its LSA to every link that it does not pass by. -/
theorem mem_sends_of_floods (h : db.step w now op = some (db', w')) {lsa : Lsa}
    {inC : Option ConnectionId} (hf : (lsa, inC) ∈ db.floods w now op) {c : ConnectionId} {link : Link}
    (hc : db.links.get c = some link) (hc' : db'.links.get c = some link ∨ op = .shutdown)
    (hinC : inC ≠ some c) (hpeer : lsa.key.origin ≠ link.peerId)
    (hback : db.isBackPath lsa.key.origin link = false) : (link, lsa) ∈ db.sends w now op := by
  have hlink := floodLinks_get h hf hc hc'
  apply List.mem_append_left
  refine List.mem_flatMap.mpr ⟨(lsa, inC), hf, mem_floodSends.mpr ⟨rfl, c, hlink, ?_⟩⟩
  have hskip : db.floodSkips lsa inC c link = false := by
    unfold floodSkips
    rw [decide_eq_false (Ne.symm hinC), decide_eq_false hpeer, hback]
    rfl
  exact hskip

/-- A new peer is handed everything that is stored when the link is up. -/
theorem mem_sends_of_exchange {link : Link} (h : db.step w now (.addPeer link) = some (db', w'))
    {adjs : List Adjacency} (hb : (db.ownRecord now).lsa.body = .router adjs) {k : LsaKey} {r : LsaRecord}
    (hr : db'.db.get k = some r) : (link, r.lsa) ∈ db.sends w now (.addPeer link) := by
  have hstep : db.addPeer w link now = (db', w') := Option.some.inj h
  apply List.mem_append_right
  simp only [hb]
  rcases addPeer_cases db w link now with ⟨info, hb', -⟩ | ⟨adjs', hb', heq⟩
  · rw [hb] at hb'
    cases hb'
  · rw [hb] at hb'
    cases hb'
    rw [heq] at hstep
    rw [← (Prod.mk.inj hstep).1] at hr
    exact List.mem_map.mpr ⟨r, HashMap.mem_values_iff.mpr ⟨k, hr⟩, rfl⟩

/-- A version that is due on a connection is handed to its link. -/
theorem Due.mem_sends {c : ConnectionId} {link : Link} {lsa : Lsa} (hdue : Due db db' op c link lsa)
    (h : db.step w now op = some (db', w')) (hpos : 0 < lsa.seq)
    (hshut : op = .shutdown → ∃ adjs, lsa.body = .router adjs) : (link, lsa) ∈ db.sends w now op := by
  obtain ⟨hc, hc', hv, hex⟩ := hdue
  obtain ⟨inC, hf, hin⟩ := hv.flooded h hpos hshut
  by_cases hinC : inC = some c
  · rcases hin c hinC with hhandle | ⟨link', rfl, hid⟩
    · exact absurd (.inl hhandle) hex
    · -- The flood passes by a new peer, which gets the LSA in the exchange.
      have hlink := floodLinks_get h hf hc hc'
      have hl : link = link' := by
        rw [floodLinks, HashMap.get_insert, if_pos hid.symm] at hlink
        exact (Option.some.inj hlink).symm
      subst hl
      simp only [floods] at hf
      split at hf
      · next adjs hb =>
        cases hv with
        | stored hr _ => exact mem_sends_of_exchange h hb hr
      · cases hf
  · refine mem_sends_of_floods h hf hc hc' hinC (fun ho => hex (.inr (.inl ho))) ?_
    exact Bool.eq_false_iff.mpr fun hback => hex (.inr (.inr hback))

/-- A hand-over goes to the link of its connection. -/
theorem upLink_of_sends (hok : db.Ok) (h : db.step w now op = some (db', w')) {s : Link × Lsa}
    (hs : s ∈ db.sends w now op) : upLink db db' s.1.connectionId = some s.1 := by
  rcases (LsDb.mem_sends hok h hs).1 with hl | ⟨-, hnone, hl⟩
  · rw [upLink, hl]
    rfl
  · rw [upLink, hnone, hl]
    rfl

/-- Into a channel that does not become full everything goes. -/
theorem sentOn_of_sends (hok : db.Ok) (h : db.step w now op = some (db', w'))
    (hroom : NeverFull db db' w w') {link : Link} {lsa l : Lsa} (hs : (link, lsa) ∈ db.sends w now op)
    (hl : link.permits lsa = some l) : l ∈ sentOn db db' w w' link.connectionId := by
  have hack : ∀ c k s, op ≠ .handleAck c k s := by
    rintro c k s rfl
    cases hs
  have hup : upLink db db' link.connectionId = some link := upLink_of_sends hok h hs
  obtain ⟨-, hnode⟩ := step_tracks h hack
  obtain ⟨hopen, hfit⟩ := hroom _ link hup
  obtain ⟨a, ha, -⟩ := acknowledged_queue db w op link.tx
  have hclosed : ((db.acknowledged w op).node link.tx).closed = false := by
    cases op with
    | handleLsa lsa' c =>
      rw [acknowledged, sendAck_node, Chan.offerAll_closed]
      exact hopen
    | _ => exact hopen
  rw [sentOn, hup]
  rw [hnode, trackAll_node] at hfit
  simp only [newLsas]
  rw [hnode, trackAll_node]
  have hqueue := Chan.offerAll_queue_of_fits hclosed hfit
  rw [hqueue, ha, List.append_assoc, List.drop_left, lsasOf_append]
  apply List.mem_append_right
  refine List.mem_filterMap.mpr ⟨.lsa l, ?_, rfl⟩
  exact List.mem_filterMap.mpr ⟨(link, lsa), List.mem_filter.mpr ⟨hs, by simp⟩, by simp [Link.message, hl]⟩

end Flooded

/-- In every run over links that never become full, whose filters leave something of every
version that supersedes what a neighbour holds, each such version is sent. -/
theorem superseded_propagated (selfId : NodeId) (db : LsDb) (history : ConnectionId → List LinkEvent)
    (h : Observed FilterLeaves selfId db history) (c : ConnectionId) :
    LinkEvent.Propagated (history c) := by
  have hboth : db.Ok ∧ ∀ c, LinkEvent.Propagated (history c) := by
    induction h with
    | new now =>
      refine ⟨Ok.new selfId now, fun c before lsa after heq => ?_⟩
      simp at heq
    | rehash _ hre ih => exact ⟨ih.1.rehash hre, ih.2⟩
    | @step db db' history w w' now op versions _ _ hstep hroom hdue hleaves ih =>
      obtain ⟨hok, hprop⟩ := ih
      refine ⟨(step_advances hok hstep).ok, fun c => LinkEvent.Propagated.append ?_ ?_⟩
      · split
        · exact hprop c
        · intro before lsa after heq
          simp at heq
      · intro lsa hlsa hholds
        obtain ⟨link, hd⟩ := hdue c lsa hlsa
        split at hholds
        · obtain ⟨hsome, hshut⟩ := hleaves c link lsa hd hholds
          obtain ⟨l, hl⟩ := Option.isSome_iff_exists.mp hsome
          obtain ⟨before, old, after, -, -, -, hlt, -⟩ := hholds
          have hsends := hd.mem_sends hstep (Nat.zero_lt_of_lt hlt) hshut
          have hsent := sentOn_of_sends hok hstep hroom hsends hl
          rw [hok.link_id c link hd.1] at hsent
          obtain ⟨hkey, hseq, -⟩ := Link.permits_some hl
          exact ⟨l, hsent, hkey, .inl hseq⟩
        · obtain ⟨before, old, after, hnil, -⟩ := hholds
          simp [LinkEvent.sentLsas] at hnil
  exact hboth.2 c

/-- Whether channels stay open and do not become full shows in the links. -/
theorem neverFull_of_links {db db' : LsDb} {w w' : Wires}
    (h : ∀ e ∈ db.links.entries ++ db'.links.entries, (w.node e.2.tx).closed = false ∧
      (w'.node e.2.tx).queue.length < (w'.node e.2.tx).capacity) : NeverFull db db' w w' := by
  intro c link hc
  rcases Option.or_eq_some_iff.mp hc with hc | ⟨-, hc⟩
  · exact h ⟨c, link⟩ (List.mem_append_right _ (HashMap.mem_entries_iff.mpr hc))
  · exact h ⟨c, link⟩ (List.mem_append_left _ (HashMap.mem_entries_iff.mpr hc))

end LsDb

/-- The links of node 2: to node 1 for two realms, to node 4 for one of them. -/
def relayUplink : Link := ⟨0, 1, 0, {.global, .userspace}, ⟨1, Cost.one_le_max⟩⟩

def relayDownlink : Link := ⟨1, 4, 1, {.userspace}, ⟨1, Cost.one_le_max⟩⟩

/-- The router LSA of node 1 with a neighbour in each realm, and after it has lost one. -/
def wideLsa : Lsa :=
  ⟨⟨1, 1⟩, 1, false, .router [⟨5, 3, ⟨1, Cost.one_le_max⟩, {.userspace}⟩, ⟨6, 2, ⟨1, Cost.one_le_max⟩, {.global}⟩]⟩

def narrowLsa : Lsa := ⟨⟨1, 1⟩, 2, false, .router [⟨6, 2, ⟨1, Cost.one_le_max⟩, {.global}⟩]⟩

/-- Node 2 with its first link and with both. -/
def relay₁ : LsDb := ((LsDb.new 2 0).addPeer (.idle 32) relayUplink 0).1

def relay₂ : LsDb := (relay₁.addPeer (.idle 32) relayDownlink 0).1

/-- Node 2 and its channels after an LSA of node 1. -/
def relayed (db : LsDb) (lsa : Lsa) : LsDb × Wires :=
  (db.handleLsa (.idle 32) lsa 0 0).getD (db, .idle 32)

/-- Node 2 after the first and after the second LSA. -/
def relay₃ : LsDb := (relayed relay₂ wideLsa).1

def relay₄ : LsDb := (relayed relay₃ narrowLsa).1

theorem relay_observed (allowed : (ConnectionId → List LinkEvent) → LsDb → LsDb → Op → Prop)
    (h₁ : allowed (fun _ => []) (LsDb.new 2 0) relay₁ (.addPeer relayUplink))
    (h₂ : ∀ history, allowed history relay₁ relay₂ (.addPeer relayDownlink)) :
    ∃ history, LsDb.Observed allowed 2 relay₂ history ∧
      LinkEvent.version (relay₂.ownRecord 0).lsa ∈ history 0 := by
  have hempty : (LsDb.new 2 0).OwnChannel (.addPeer relayUplink) := by
    intro c link hc
    change (∅ : HashMap ConnectionId Link).get c = some link at hc
    simp at hc
  have hup := LsDb.Observed.step (.idle 32) 0 (.addPeer relayUplink) (fun _ => []) (.new 0) hempty rfl
    (LsDb.neverFull_of_links (by decide +kernel)) (by simp) h₁
  have hown : relay₁.OwnChannel (.addPeer relayDownlink) := by
    intro c link hc
    have hall : ∀ e ∈ relay₁.links.entries, e.2.tx ≠ relayDownlink.tx := by decide +kernel
    exact hall ⟨c, link⟩ (HashMap.mem_entries_iff.mpr hc)
  have hdue : LsDb.Due relay₁ relay₂ (.addPeer relayDownlink) 0 relayUplink (relay₂.ownRecord 0).lsa := by
    refine ⟨by decide +kernel, .inl (by decide +kernel), .stored (k := ⟨2, 2⟩) (r := relay₂.ownRecord 0) ?_ ?_, ?_⟩
    · decide +kernel
    · intro r₀ hr₀
      have hseq : (relay₁.db.get ⟨2, 2⟩).all fun r₀ => r₀.lsa.seq < (relay₂.ownRecord 0).lsa.seq := by
        decide +kernel
      rw [hr₀] at hseq
      exact of_decide_eq_true hseq
    · rintro (⟨hop, -⟩ | hpeer | hback)
      · cases hop
      · exact absurd hpeer (by decide +kernel)
      · exact absurd hback (by decide +kernel)
  have hboth := LsDb.Observed.step (.idle 32) 0 (.addPeer relayDownlink)
    (fun c => if c = 0 then [(relay₂.ownRecord 0).lsa] else []) hup hown rfl
    (LsDb.neverFull_of_links (by decide +kernel))
    (fun c lsa hlsa => by
      split at hlsa
      · next hc =>
        subst hc
        rw [List.mem_singleton.mp hlsa]
        exact ⟨relayUplink, hdue⟩
      · cases hlsa) (h₂ _)
  exact ⟨_, hboth, by simp⟩

/-- What node 4 is left with: the first version, less what its realm hides. -/
def keptLsa : Lsa := ⟨⟨1, 1⟩, 1, false, .router [⟨5, 3, ⟨1, Cost.one_le_max⟩, {.userspace}⟩]⟩

theorem relayed_step {db : LsDb} {lsa : Lsa} (h : (db.handleLsa (.idle 32) lsa 0 0).isSome = true) :
    db.step (.idle 32) 0 (.handleLsa lsa 0) = some ((relayed db lsa).1, (relayed db lsa).2) := by
  obtain ⟨r, hr⟩ := Option.isSome_iff_exists.mp h
  change db.handleLsa (.idle 32) lsa 0 0 = _
  rw [relayed, hr]
  rfl

/-- Node 4 is not told that node 1 has lost the neighbour that node 4 could see: the realm
of the link leaves nothing of the newer version. -/
theorem narrowed_not_propagated :
    ¬ ∀ (selfId : NodeId) (db : LsDb) (history : ConnectionId → List LinkEvent),
      LsDb.Observed (fun _ _ _ _ => True) selfId db history → ∀ c, LinkEvent.Propagated (history c) := by
  intro h
  obtain ⟨history, hboth, -⟩ := relay_observed (fun _ _ _ _ => True) trivial fun _ => trivial
  have hwide := LsDb.Observed.step (.idle 32) 0 (.handleLsa wideLsa 0) (fun _ => []) hboth trivial
    (relayed_step (by decide +kernel)) (LsDb.neverFull_of_links (by decide +kernel)) (by simp) trivial
  have hdue : LsDb.Due relay₃ relay₄ (.handleLsa narrowLsa 0) 1 relayDownlink narrowLsa := by
    refine ⟨by decide +kernel, .inl (by decide +kernel), .stored (k := ⟨1, 1⟩) (r := ⟨narrowLsa, 0⟩) ?_ ?_, ?_⟩
    · decide +kernel
    · intro r₀ hr₀
      have hseq : (relay₃.db.get ⟨1, 1⟩).all fun r₀ => r₀.lsa.seq < narrowLsa.seq := by decide +kernel
      rw [hr₀] at hseq
      exact of_decide_eq_true hseq
    · rintro (⟨hop, -⟩ | hpeer | hback)
      · exact absurd (Op.handleLsa.inj hop).2 (by decide)
      · exact absurd hpeer (by decide)
      · exact absurd hback (by decide +kernel)
  have hnarrow := LsDb.Observed.step (.idle 32) 0 (.handleLsa narrowLsa 0)
    (fun c => if c = 1 then [narrowLsa] else []) hwide trivial
    (relayed_step (by decide +kernel)) (LsDb.neverFull_of_links (by decide +kernel))
    (fun c lsa hlsa => by
      split at hlsa
      · next hc =>
        subst hc
        rw [List.mem_singleton.mp hlsa]
        exact ⟨relayDownlink, hdue⟩
      · cases hlsa) trivial
  have hfirst : LsDb.sentOn relay₂ relay₃ (.idle 32) (relayed relay₂ wideLsa).2 1 = [keptLsa] := by
    decide +kernel
  have hsecond : LsDb.sentOn relay₃ relay₄ (.idle 32) (relayed relay₃ narrowLsa).2 1 = [] := by
    decide +kernel
  have hlinks : relay₄.links.get 1 = relay₃.links.get 1 := by decide +kernel
  have hprop := h _ _ _ hnarrow 1
  simp only [show (relayed relay₃ narrowLsa).1 = relay₄ from rfl,
    show (relayed relay₂ wideLsa).1 = relay₃ from rfl, hfirst, hsecond, hlinks, true_or, if_true,
    List.map_nil, List.append_nil] at hprop
  obtain ⟨l, hl, -⟩ := hprop _ narrowLsa [] rfl
    ⟨_, keptLsa, [], List.filterMap_append, rfl, rfl, by decide, by simp⟩
  cases hl

/-- The link that comes second is told to the first neighbour. -/
theorem second_link_propagated :
    ∃ history, LsDb.Observed LsDb.FilterLeaves 2 relay₂ history ∧
      LinkEvent.version (relay₂.ownRecord 0).lsa ∈ history 0 ∧
      ∀ c, LinkEvent.Propagated (history c) := by
  have hfirst : LsDb.FilterLeaves (fun _ => []) (LsDb.new 2 0) relay₁ (.addPeer relayUplink) := by
    rintro c link lsa - ⟨before, old, after, hnil, -⟩
    simp [LinkEvent.sentLsas] at hnil
  have hsecond : ∀ history, LsDb.FilterLeaves history relay₁ relay₂ (.addPeer relayDownlink) := by
    rintro history c link lsa ⟨hc, -, hv, -⟩ -
    refine ⟨?_, fun hop => by cases hop⟩
    have hall : ∀ e ∈ relay₁.links.entries, ∀ e' ∈ relay₂.db.entries, (e.2.permits e'.2.lsa).isSome := by
      decide +kernel
    generalize hop : Op.addPeer relayDownlink = op at hv
    cases hv with
    | @stored _ k r hr _ =>
      exact hall ⟨c, link⟩ (HashMap.mem_entries_iff.mpr hc) ⟨k, r⟩ (HashMap.mem_entries_iff.mpr hr)
    | died | withdrawn | left => cases hop
  obtain ⟨history, h, hmem⟩ := relay_observed LsDb.FilterLeaves hfirst hsecond
  exact ⟨history, h, hmem, LsDb.superseded_propagated 2 relay₂ history h⟩

end Anybus
