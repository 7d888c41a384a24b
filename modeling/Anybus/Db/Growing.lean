import Anybus.Db.Advertise
import Anybus.Db.Panics
import Anybus.Db.Superseded

/-!
# Nodes that withdraw nothing

Links come and go, listeners register and LSAs arrive, but nothing is withdrawn, purged or
shut down. Then an operation writes at most one record, under a greater number than before,
and floods what it has written; a new peer is sent all that is stored.
-/

namespace Anybus

namespace LsDb

/-- The operations that withdraw nothing, on connections that are not in use and for
endpoints that leave the key of the router LSA to it. -/
inductive Grows (db : LsDb) : Op → Prop where
  | addPeer {link : Link} (h : db.links.get link.connectionId = none) : Grows db (.addPeer link)
  | removePeer (c : ConnectionId) : Grows db (.removePeer c)
  | addEndpoint {request : RegistrationRequest} (h : ¬ db.Overwrites request) :
      Grows db (.addEndpoint request)
  | handleLsa {lsa : Lsa} (c : ConnectionId) (h : lsa.dead = false) : Grows db (.handleLsa lsa c)

/-- What these operations keep: the own router LSA is the only one of the node and lists its
links, the own endpoints are those with a listener, and no record is dead. -/
structure Growing (db : LsDb) : Prop where
  sound : db.Sound
  mirrors : db.MirrorsLinks
  served : db.AdvertisesServed
  alive : ∀ k r, db.db.get k = some r → r.lsa.dead = false

/-- The connections a flood leaves out: the one the LSA came in on, that of a new peer, and
connection 0 for the first version of an endpoint. -/
def LeavesOut (op : Op) (lsa : Lsa) (c : ConnectionId) : Prop :=
  op = .handleLsa lsa c ∨ (∃ link, op = .addPeer link ∧ link.connectionId = c) ∨
    c = 0 ∧ lsa.seq = 0 ∧ ∃ request, op = .addEndpoint request

/-- A flood passes by a link: as the way back to the origin of the LSA, or as connection 0 with
the first version of an own endpoint. -/
def PassesBy (db : LsDb) (op : Op) (key : LsaKey) (seq : Nat) (c : ConnectionId) (link : Link) : Prop :=
  db.isBackPath key.origin link = true ∨ c = 0 ∧ seq = 0 ∧ ∃ request, op = .addEndpoint request

/-- An operation writes one LSA and floods it. -/
structure Writes (db : LsDb) (w : Wires) (now : Instant) (op : Op) (db' : LsDb) (lsa : Lsa)
    (inC : Option ConnectionId) : Prop where
  records : db'.db = db.db.insert lsa.key ⟨lsa, now⟩
  alive : lsa.dead = false
  newer : ∀ r, db.db.get lsa.key = some r → r.lsa.seq < lsa.seq
  floods : db.floods w now op = [(lsa, inC)]
  leavesOut : ∀ c, inC = some c → LeavesOut op lsa c

section Step

variable {db db' : LsDb} {w w' : Wires} {now : Instant} {op : Op}

theorem Growing.ok (h : db.Growing) : db.Ok := h.sound.ok

/-- The own record is there and is a router's. -/
theorem Growing.ownRecord (h : db.Growing) :
    ∃ r adjs, db.db.get db.selfKey = some r ∧ r.lsa.body = .router adjs ∧ Mirrors adjs db.links := by
  obtain ⟨adjs, hbody, hmirrors⟩ := h.mirrors
  obtain ⟨r, hr, hb⟩ := Option.map_eq_some_iff.mp hbody
  exact ⟨r, adjs, hr, hb, hmirrors⟩

theorem Growing.writes_addPeer (h : db.Growing) (link : Link)
    (hstep : db.step w now (.addPeer link) = some (db', w')) :
    ∃ lsa, Writes db w now (.addPeer link) db' lsa (some link.connectionId) := by
  obtain ⟨r, adjs, hr, hb, -⟩ := h.ownRecord
  have hown : db.ownRecord now = r := by rw [LsDb.ownRecord, hr, Option.getD_some]
  have hbody : (db.ownRecord now).lsa.body = .router adjs := by rw [hown, hb]
  have hkey : (db.advertised adjs link now).key = db.selfKey := by
    rw [advertised, hown]
    exact h.ok.record_key _ _ hr
  have hadd : db.addPeer w link now = (db', w') := Option.some.inj hstep
  rcases addPeer_cases db w link now with ⟨info, hb', -⟩ | ⟨adjs', hb', heq⟩
  · rw [hbody] at hb'
    cases hb'
  · rw [hbody] at hb'
    cases hb'
    refine ⟨db.advertised adjs link now, ?_, ?_, fun r' hr' => ?_, ?_, fun c hc => ?_⟩
    · rw [heq] at hadd
      rw [← (Prod.mk.inj hadd).1, hkey]
      rfl
    · rw [advertised, hown]
      exact h.alive _ _ hr
    · rw [hkey, hr] at hr'
      cases hr'
      rw [advertised, hown]
      exact Nat.lt_succ_self _
    · simp only [LsDb.floods, hbody]
    · exact .inr (.inl ⟨link, rfl, Option.some.inj hc⟩)

/-- Replacing a record by its next version and flooding that. -/
theorem Growing.writes_replaced (h : db.Growing) {key : LsaKey} {o : Option Lsa}
    (hnext : ∀ lsa, o = some lsa → db.NextVersion key lsa) (hrecords : db'.db = db.replaced key now o)
    (hfloods : db.floods w now op = o.toList.map (·, none)) :
    (db'.db = db.db ∧ db.floods w now op = []) ∨ ∃ lsa inC, Writes db w now op db' lsa inC := by
  cases o with
  | none => exact .inl ⟨hrecords, hfloods⟩
  | some lsa =>
    have hkey : lsa.key = key := (hnext lsa rfl).own h.ok
    obtain ⟨r, hr, -, hdead, hseq⟩ := hnext lsa rfl
    refine .inr ⟨lsa, none, ?_, ?_, fun r' hr' => ?_, hfloods, fun c hc => by cases hc⟩
    · rw [hrecords, replaced, hkey]
    · rw [hdead]
      exact h.alive _ _ hr
    · rw [hkey, hr] at hr'
      cases hr'
      omega

theorem Growing.writes_removePeer (h : db.Growing) (c : ConnectionId)
    (hstep : db.step w now (.removePeer c) = some (db', w')) :
    (db'.db = db.db ∧ db.floods w now (.removePeer c) = []) ∨
      ∃ lsa inC, Writes db w now (.removePeer c) db' lsa inC := by
  cases hc : db.links.get c with
  | none =>
    rw [removePeer_of_unknown hc hstep]
    exact .inl ⟨rfl, by simp only [LsDb.floods, hc]⟩
  | some link =>
    have hrecords := congrArg Parts.records (removePeer_parts hc hstep).2
    change db'.db = db.withoutAdjacency c now at hrecords
    rw [withoutAdjacency_eq] at hrecords
    refine h.writes_replaced (fun lsa hlsa => shrunkLsa_next hlsa) hrecords ?_
    simp only [LsDb.floods, hc]

theorem writes_handleLsa {lsa : Lsa} (c : ConnectionId) (hd : lsa.dead = false)
    (hstep : db.step w now (.handleLsa lsa c) = some (db', w')) :
    (db'.db = db.db ∧ db.floods w now (.handleLsa lsa c) = []) ∨
      ∃ lsa' inC, Writes db w now (.handleLsa lsa c) db' lsa' inC := by
  have hh := handleLsa_handled hstep
  cases hh with
  | ignored hold =>
    refine .inl ⟨rfl, ?_⟩
    simp only [LsDb.floods]
    split
    · rfl
    · next ho =>
      obtain ⟨r, hr, hle⟩ := hold.resolve_left ho
      simp only [hr, if_neg (Nat.not_lt.mpr hle)]
  | unknownDeath _ hdead _ =>
    rw [hd] at hdead
    cases hdead
  | died _ hdead _ _ _ =>
    rw [hd] at hdead
    cases hdead
  | stored ho _ hnew =>
    refine .inr ⟨lsa, some c, rfl, hd, hnew, ?_, fun c' hc' => .inl (by rw [Option.some.inj hc'])⟩
    simp only [LsDb.floods, if_neg ho]
    cases hget : db.db.get lsa.key with
    | none => simp [hd]
    | some r => simp [hd, hnew r hget]

theorem Growing.writes_addEndpoint (h : db.Growing) {request : RegistrationRequest}
    (hkeep : ¬ db.Overwrites request) (hstep : db.step w now (.addEndpoint request) = some (db', w')) :
    (db'.db = db.db ∧ db.floods w now (.addEndpoint request) = []) ∨
      ∃ lsa inC, Writes db w now (.addEndpoint request) db' lsa inC := by
  obtain ⟨rfl, -⟩ := Prod.mk.inj (Option.some.inj hstep)
  cases hadd : db.routes.addEndpoint request.endpointId request.endpointInfo request.sender with
  | error err =>
    left
    constructor
    · simp only [LsDb.addEndpoint, hadd]
    · simp only [LsDb.floods, hadd]
  | ok p =>
    obtain ⟨t, effect⟩ := p
    have hrecords := congrArg Parts.records (addEndpoint_parts db w now hadd).2
    change LsDb.db _ = db.carriedOut now effect at hrecords
    obtain ⟨hkind, huni, -, heff⟩ := RouteTable.addEndpoint_spec hadd
    rcases heff with ⟨-, rfl⟩ | ⟨hnode, hlocal, rfl⟩ | ⟨-, -, rfl | rfl⟩
    · exact .inl ⟨hrecords, by simp only [LsDb.floods, hadd]⟩
    · -- The endpoint had no listener, so nothing is stored under its key.
      have hne : request.endpointId ≠ db.selfId := by
        intro he
        rw [he] at hkind huni hlocal
        refine hkeep ⟨he, hnode, fun k hk => ?_, huni, hlocal⟩
        obtain ⟨entry, hentry, rfl⟩ := Option.map_eq_some_iff.mp hk
        exact hkind entry hentry
      refine .inr ⟨⟨⟨db.selfId, request.endpointId⟩, 0, false, .endpoint request.endpointInfo⟩, some 0,
        hrecords, rfl, fun r hr => ?_, by simp only [LsDb.floods, hadd], fun c hc => ?_⟩
      · exact absurd ((h.served _ hne).mp ⟨r, hr⟩) hlocal
      · exact .inr (.inr ⟨(Option.some.inj hc).symm, rfl, request, rfl⟩)
    · exact .inl ⟨hrecords, by simp only [LsDb.floods, hadd]⟩
    · change LsDb.db _ = db.recosted _ _ now at hrecords
      rw [recosted_eq] at hrecords
      refine h.writes_replaced (fun lsa hlsa => recostLsa_next hlsa) hrecords ?_
      simp only [LsDb.floods, hadd]

/-- One operation that withdraws nothing, as records and floods see it. -/
theorem Growing.writes (h : db.Growing) (hop : db.Grows op)
    (hstep : db.step w now op = some (db', w')) :
    (db'.db = db.db ∧ db.floods w now op = []) ∨ ∃ lsa inC, Writes db w now op db' lsa inC := by
  cases hop with
  | @addPeer link _ =>
    obtain ⟨lsa, hw⟩ := h.writes_addPeer link hstep
    exact .inr ⟨lsa, _, hw⟩
  | removePeer c => exact h.writes_removePeer c hstep
  | addEndpoint hkeep => exact h.writes_addEndpoint hkeep hstep
  | handleLsa c hd => exact writes_handleLsa c hd hstep

/-- What is stored afterwards was stored before, or is what was written. -/
theorem Writes.stored {lsa : Lsa} {inC : Option ConnectionId} (hw : Writes db w now op db' lsa inC)
    {k : LsaKey} {r : LsaRecord} (hr : db'.db.get k = some r) :
    db.db.get k = some r ∨ k = lsa.key ∧ r = ⟨lsa, now⟩ := by
  rw [hw.records, HashMap.get_insert] at hr
  split at hr
  · exact .inr ⟨‹_›, (Option.some.inj hr).symm⟩
  · exact .inl hr

/-- A record stays, or a newer version takes its place. -/
theorem Growing.kept (h : db.Growing) (hop : db.Grows op) (hstep : db.step w now op = some (db', w'))
    {k : LsaKey} {r : LsaRecord} (hr : db.db.get k = some r) :
    ∃ r', db'.db.get k = some r' ∧ (r' = r ∨ r.lsa.seq < r'.lsa.seq) := by
  rcases h.writes hop hstep with ⟨hsame, -⟩ | ⟨lsa, inC, hw⟩
  · exact ⟨r, by rw [hsame, hr], .inl rfl⟩
  · rw [hw.records, HashMap.get_insert]
    split
    · next hk =>
      subst hk
      exact ⟨_, rfl, .inr (hw.newer r hr)⟩
    · exact ⟨r, hr, .inl rfl⟩

/-- These operations keep what they rely on. -/
theorem Growing.step (h : db.Growing) (hop : db.Grows op) (hstep : db.step w now op = some (db', w')) :
    db'.Growing := by
  have hkeeps : db.KeepsRouter w op := by
    cases hop with
    | addPeer hnew => exact hnew
    | removePeer c => trivial
    | addEndpoint hkeep => exact hkeep
    | handleLsa c hd => trivial
  refine ⟨h.sound.step ?_ hstep, h.mirrors.step h.ok hkeeps hstep,
    h.served.step h.ok ?_ ?_ hstep, fun k r hr => ?_⟩
  · rintro link rfl
    exact hkeeps
  · rintro rfl
    cases hop
  · rintro e rfl
    cases hop
  · rcases h.writes hop hstep with ⟨hsame, -⟩ | ⟨lsa, inC, hw⟩
    · exact h.alive k r (hsame ▸ hr)
    · rcases hw.stored hr with hr | ⟨-, rfl⟩
      · exact h.alive k r hr
      · exact hw.alive

theorem Growing.new (selfId : NodeId) (now : Instant) : (new selfId now).Growing := by
  refine ⟨.new selfId now, .new selfId now, .new selfId now, fun k r hr => ?_⟩
  simp only [LsDb.new, HashMap.get_insert] at hr
  split at hr
  · rw [← Option.some.inj hr]
  · simp at hr

/-- Whatever else an operation changes does not matter. -/
theorem Growing.of_parts (h : db.Growing) (hself : db'.selfId = db.selfId) (hparts : db'.parts = db.parts) :
    db'.Growing := by
  have hrecords : db'.db = db.db := congrArg Parts.records hparts
  have hlinks : db'.links = db.links := congrArg Parts.links hparts
  have hroutes : db'.routes = db.routes := congrArg Parts.routes hparts
  have hown : db'.ownBody = db.ownBody := by rw [ownBody, ownBody, selfKey, selfKey, hself, hrecords]
  refine ⟨⟨⟨?_, ?_⟩, ?_, ?_⟩, ?_, h.served.stays (.of_eq hself hrecords hroutes), ?_⟩
  · rw [hrecords]
    exact h.ok.record_key
  · rw [hlinks]
    exact h.ok.link_id
  · rw [hrecords, hself, selfKey, hself]
    exact h.sound.own_key
  · rw [hown, hlinks]
    exact h.sound.reach
  · rw [MirrorsLinks, hown, hlinks]
    exact h.mirrors
  · rw [hrecords]
    exact h.alive

theorem Growing.rehash (h : db.Growing) (hre : Rehash db db') : db'.Growing := by
  refine ⟨h.sound.rehash hre, h.mirrors.rehash hre, h.served.rehash hre, fun k r hr => ?_⟩
  rw [hre.get_record] at hr
  exact h.alive k r hr

theorem Growing.buildFib (h : db.Growing) {fib : ForwardingTable} (hfib : db.buildFib = some (db', fib)) :
    db'.Growing := by
  obtain ⟨s, _, rfl, _⟩ := buildFib_eq_some_iff.mp hfib
  exact h.of_parts rfl rfl

/-- An LSA that has come in is stored in that version or a newer one, unless it is the own one. -/
theorem stored_of_handleLsa {lsa : Lsa} {c : ConnectionId} (hd : lsa.dead = false)
    (hstep : db.step w now (.handleLsa lsa c) = some (db', w')) :
    lsa.key.origin = db.selfId ∨ ∃ r, db'.db.get lsa.key = some r ∧ lsa.seq ≤ r.lsa.seq := by
  have hh := handleLsa_handled hstep
  cases hh with
  | ignored hold => exact hold
  | unknownDeath _ hdead _ =>
    rw [hd] at hdead
    cases hdead
  | died _ hdead _ _ _ =>
    rw [hd] at hdead
    cases hdead
  | stored => exact .inr ⟨⟨lsa, now⟩, by simp, Nat.le_refl _⟩

/-- Everything that is sent is stored. -/
theorem Growing.stored_of_sends (h : db.Growing) (hop : db.Grows op)
    (hstep : db.step w now op = some (db', w')) {s : Link × Lsa} (hs : s ∈ db.sends w now op) :
    ∃ r, db'.db.get s.2.key = some r ∧ r.lsa = s.2 := by
  rcases List.mem_append.mp hs with hs | hs
  · obtain ⟨⟨lsa, inC⟩, hf, hs⟩ := List.mem_flatMap.mp hs
    rw [(mem_floodSends.mp hs).1]
    rcases h.writes hop hstep with ⟨-, hnone⟩ | ⟨lsa', inC', hw⟩
    · rw [hnone] at hf
      cases hf
    · rw [hw.floods] at hf
      obtain ⟨rfl, -⟩ := Prod.mk.inj (List.mem_singleton.mp hf)
      exact ⟨⟨lsa, now⟩, by rw [hw.records, HashMap.get_insert, if_pos rfl], rfl⟩
  · cases hop with
    | @addPeer link _ =>
      have hadd : db.addPeer w link now = (db', w') := Option.some.inj hstep
      simp only at hs
      rcases addPeer_cases db w link now with ⟨info, hb, -⟩ | ⟨adjs, hb, heq⟩
      · simp [hb] at hs
      · simp only [hb] at hs
        obtain ⟨r, hr, rfl⟩ := List.mem_map.mp hs
        obtain ⟨k, hk⟩ := HashMap.mem_values_iff.mp hr
        rw [heq] at hadd
        have hget : db'.db.get k = some r := by
          rw [← (Prod.mk.inj hadd).1]
          exact hk
        refine ⟨r, ?_, rfl⟩
        rwa [(step_advances h.ok hstep).ok.record_key k r hget]
    | removePeer | addEndpoint | handleLsa => cases hs

/-- Over every link that is up afterwards and does not lead to the origin, each stored record
was settled before, is sent, has come in, or is passed by. -/
theorem Growing.due (h : db.Growing) (hop : db.Grows op) (hstep : db.step w now op = some (db', w'))
    {k : LsaKey} {r : LsaRecord} (hr : db'.db.get k = some r) {c : ConnectionId} {link : Link}
    (hc : db'.links.get c = some link) (hpeer : k.origin ≠ link.peerId) :
    (db.links.get c = some link ∧ db.db.get k = some r) ∨ (link, r.lsa) ∈ db.sends w now op ∨
      (db.links.get c = some link ∧ ∀ r₀, db.db.get k = some r₀ → r₀.lsa.seq < r.lsa.seq) ∧
        (op = .handleLsa r.lsa c ∨ db.PassesBy op k r.lsa.seq c link) := by
  rcases step_links hstep hc with hold | ⟨rfl, rfl⟩
  · rcases h.writes hop hstep with ⟨hsame, -⟩ | ⟨lsa, inC, hw⟩
    · exact .inl ⟨hold, hsame ▸ hr⟩
    · rcases hw.stored hr with hr | ⟨rfl, rfl⟩
      · exact .inl ⟨hold, hr⟩
      · by_cases hback : db.isBackPath lsa.key.origin link = true
        · exact .inr (.inr ⟨⟨hold, hw.newer⟩, .inr (.inl hback)⟩)
        · by_cases hinC : inC = some c
          · rcases hw.leavesOut c hinC with hin | ⟨link', rfl, hid⟩ | hzero
            · exact .inr (.inr ⟨⟨hold, hw.newer⟩, .inl hin⟩)
            · cases hop with
              | addPeer hnew =>
                rw [hid, hold] at hnew
                cases hnew
            · exact .inr (.inr ⟨⟨hold, hw.newer⟩, .inr (.inr hzero)⟩)
          · have hf : (lsa, inC) ∈ db.floods w now op := by
              rw [hw.floods]
              exact List.mem_singleton_self _
            exact .inr (.inl (mem_sends_of_floods hstep hf hold (.inl hc) hinC hpeer
              (Bool.eq_false_iff.mpr hback)))
  · obtain ⟨r₀, adjs, hr₀, hb, -⟩ := h.ownRecord
    have hbody : (db.ownRecord now).lsa.body = .router adjs := by
      rw [LsDb.ownRecord, hr₀, Option.getD_some, hb]
    exact .inr (.inl (mem_sends_of_exchange hstep hbody hr))

end Step

end LsDb

end Anybus
