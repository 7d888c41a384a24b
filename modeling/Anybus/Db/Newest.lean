import Anybus.Db.Handle
import Anybus.Db.Routes
import Anybus.Spf.ShortestPaths

/-!
# Which version of a record survives

Seen through one key, a database that receives LSAs of that key keeps one version
or none. A withdrawal removes an older version and is then forgotten, so an old
version that comes later is taken as news. The newest version decides the outcome
exactly when it is alive, or when every alive version that arrives is followed by a
newer withdrawal.
-/

namespace Anybus

/-- The version kept for a key when another version of it arrives. -/
def keepNewest (current : Option Lsa) (lsa : Lsa) : Option Lsa :=
  if lsa.dead then current.filter fun c => decide (lsa.seq ≤ c.seq)
  else match current with
    | some c => if c.seq < lsa.seq then some lsa else some c
    | none => some lsa

/-- Every alive version is followed by a newer withdrawal. -/
def Superseded : List Lsa → Prop
  | [] => True
  | a :: l => (a.dead = false → ∃ b ∈ l, b.dead = true ∧ a.seq < b.seq) ∧ Superseded l

/-- Nothing is kept exactly when the version at the start and every alive version are
followed by a newer withdrawal. -/
theorem foldl_keepNewest_eq_none_iff (l : List Lsa) (current : Option Lsa) :
    l.foldl keepNewest current = none ↔
      (∀ c, current = some c → ∃ b ∈ l, b.dead = true ∧ c.seq < b.seq) ∧ Superseded l := by
  induction l generalizing current with
  | nil => cases current <;> simp [Superseded]
  | cons a l ih =>
    rw [List.foldl_cons, ih, Superseded, ← and_assoc]
    refine and_congr_left' ?_
    cases hd : a.dead with
    | true =>
      cases current with
      | none => simp [keepNewest, hd]
      | some c =>
        by_cases hle : a.seq ≤ c.seq
        · have hkeep : keepNewest (some c) a = some c := by simp [keepNewest, hd, hle]
          rw [hkeep]
          simp only [Option.some.injEq, forall_eq', List.mem_cons, exists_eq_or_imp,
            Bool.true_eq_false, false_imp_iff, and_true]
          constructor
          · exact fun h => Or.inr h
          · rintro (⟨_, hlt⟩ | h)
            · omega
            · exact h
        · have hdrop : keepNewest (some c) a = none := by
            simp only [keepNewest, hd, if_true, Option.filter, hle, decide_false,
              Bool.false_eq_true, if_false]
          rw [hdrop]
          simp only [reduceCtorEq, false_imp_iff, implies_true, Option.some.injEq, forall_eq',
            List.mem_cons, exists_eq_or_imp, Bool.true_eq_false, and_true, true_iff]
          exact Or.inl ⟨hd, by omega⟩
    | false =>
      cases current with
      | none => simp [keepNewest, hd]
      | some c =>
        have hkeep : ∃ k, keepNewest (some c) a = some k ∧ k.seq = max c.seq a.seq := by
          by_cases hlt : c.seq < a.seq
          · exact ⟨a, by simp [keepNewest, hd, hlt], by omega⟩
          · exact ⟨c, by simp [keepNewest, hd, hlt], by omega⟩
        obtain ⟨k, hk, hseq⟩ := hkeep
        rw [hk]
        simp only [Option.some.injEq, forall_eq', List.mem_cons, exists_eq_or_imp, hd,
          Bool.false_eq_true, false_and, false_or, true_imp_iff, hseq]
        constructor
        · rintro ⟨b, hb, hdead, hlt⟩
          exact ⟨⟨b, hb, hdead, by omega⟩, b, hb, hdead, by omega⟩
        · rintro ⟨⟨b, hb, hdead, hlt⟩, b', hb', hdead', hlt'⟩
          rcases Nat.le_total b.seq b'.seq with hle | hle
          · exact ⟨b', hb', hdead', by omega⟩
          · exact ⟨b, hb, hdead, by omega⟩

/-- An alive newest version is kept, whatever else arrives. -/
theorem foldl_keepNewest_of_alive {l : List Lsa} {current : Option Lsa} {m : Lsa}
    (hm : m.dead = false) (hmem : m ∈ l ∨ current = some m) (hmax : ∀ a ∈ l, a.seq ≤ m.seq)
    (hdist : ∀ a ∈ l, a.seq = m.seq → a = m)
    (hcur : ∀ c, current = some c → c.seq ≤ m.seq ∧ (c.seq = m.seq → c = m)) :
    l.foldl keepNewest current = some m := by
  induction l generalizing current with
  | nil =>
    rcases hmem with hmem | hmem
    · cases hmem
    · exact hmem
  | cons a l ih =>
    have ha := hmax a List.mem_cons_self
    have had := hdist a List.mem_cons_self
    refine ih ?_ (fun b hb => hmax b (List.mem_cons_of_mem _ hb))
      (fun b hb => hdist b (List.mem_cons_of_mem _ hb)) ?_
    · by_cases heq : a = m
      · right
        subst heq
        cases current with
        | none => simp [keepNewest, hm]
        | some c =>
          have hc := hcur c rfl
          by_cases hlt : c.seq < a.seq
          · simp [keepNewest, hm, hlt]
          · simp [keepNewest, hm, hc.2 (by omega)]
      · rcases hmem with hmem | rfl
        · exact Or.inl ((List.mem_cons.mp hmem).resolve_left (Ne.symm heq))
        · have hlt : a.seq < m.seq := lt_of_le_of_ne ha fun h => heq (had h)
          right
          unfold keepNewest
          split
          · simp [hlt.le]
          · simp [Nat.not_lt.mpr hlt.le]
    · intro c hc
      unfold keepNewest at hc
      split at hc
      · obtain ⟨hcur', _⟩ := Option.filter_eq_some_iff.mp hc
        exact hcur c hcur'
      · cases current with
        | none =>
          obtain rfl := Option.some.inj hc
          exact ⟨ha, had⟩
        | some c' =>
          simp only at hc
          split at hc
          · obtain rfl := Option.some.inj hc
            exact ⟨ha, had⟩
          · obtain rfl := Option.some.inj hc
            exact hcur c' rfl

/-- An LSA as it comes in: over which connection, when, and with which channels. -/
structure Arrival where
  lsa : Lsa
  connectionId : ConnectionId
  now : Instant
  wires : Wires

namespace LsDb

/-- Handle LSAs one after the other; `none` if one of them panics. -/
def deliver : LsDb → List Arrival → Option LsDb
  | db, [] => some db
  | db, a :: l =>
    match db.handleLsa a.wires a.lsa a.connectionId a.now with
    | some (db', _) => db'.deliver l
    | none => none

/-- The version of a record that is stored. -/
def stored (db : LsDb) (key : LsaKey) : Option Lsa := (db.db.get key).map LsaRecord.lsa

section Handle

variable {db db' : LsDb} {w w' : Wires} {lsa : Lsa} {c : ConnectionId} {now : Instant}

/-- Handling an LSA cannot panic when the links reach all own adjacencies. -/
theorem handleLsa_total (h : db.LinksReach db.selfId) (w : Wires) (lsa : Lsa) (c : ConnectionId)
    (now : Instant) : ∃ db' w', db.handleLsa w lsa c now = some (db', w') := by
  unfold handleLsa
  simp only
  by_cases ho : lsa.key.origin = db.selfId
  · rw [if_pos ho]
    exact ⟨_, _, rfl⟩
  rw [if_neg ho]
  cases hd : lsa.dead with
  | true =>
    rw [if_pos rfl]
    unfold removeDeadLsa
    rw [if_pos hd]
    split
    · split
      · exact ⟨_, _, rfl⟩
      · exact ⟨_, _, rfl⟩
    · exact ⟨_, _, rfl⟩
  | false =>
    rw [if_neg Bool.false_ne_true]
    rcases upsertLsa_eq db lsa now with ⟨hup, _⟩ | ⟨_, hup⟩
    · simp only [hup]
      exact ⟨_, _, rfl⟩
    · have hreach : ({ db with db := db.db.insert lsa.key ⟨lsa, now⟩ } : LsDb).LinksReach db.selfId := by
        intro k r adjs hk hb hself
        rw [HashMap.get_insert, if_neg (by rintro rfl; exact ho hself)] at hk
        exact h k r adjs hk hb hself
      obtain ⟨s, hs, _⟩ := spf_hops hreach.linksCover
      simp only [hup, floodAllNeighbors_eq]
      split
      · simp only [computeSpf, hs]
        exact ⟨_, _, rfl⟩
      · exact ⟨_, _, rfl⟩

/-- Handling an LSA never changes the node's own records, its links or its identity. -/
theorem Handled.frame (h : Handled db w lsa c now db' w') :
    db'.selfId = db.selfId ∧ db'.links = db.links ∧
      ∀ k, k.origin = db.selfId → db'.db.get k = db.db.get k := by
  cases h with
  | ignored => exact ⟨rfl, rfl, fun _ _ => rfl⟩
  | unknownDeath => exact ⟨rfl, rfl, fun _ _ => rfl⟩
  | died ho _ r _ _ =>
    refine ⟨rfl, rfl, fun k hk => ?_⟩
    have hne : k ≠ lsa.key := by
      rintro rfl
      exact ho hk
    simp only [withoutDead]
    cases r.lsa.body with
    | router adjs =>
      have hkeep : k.origin ≠ lsa.key.origin := hk ▸ Ne.symm ho
      rw [HashMap.get_retain]
      cases db.db.get k <;> simp [Option.filter, hkeep]
    | endpoint info => rw [HashMap.get_erase, if_neg hne]
  | stored ho =>
    refine ⟨rfl, rfl, fun k hk => ?_⟩
    rw [HashMap.get_insert, if_neg]
    rintro rfl
    exact ho hk

theorem LinksReach.handled (hr : db.LinksReach db.selfId) (h : Handled db w lsa c now db' w') :
    db'.LinksReach db'.selfId := by
  obtain ⟨hself, hlinks, hown⟩ := h.frame
  intro k r adjs hk hb ho
  rw [hself] at ho
  rw [hown k ho] at hk
  rw [hlinks]
  exact hr k r adjs hk hb ho

/-- The stored version of the key follows `keepNewest`. -/
theorem Handled.stored_eq (ho : lsa.key.origin ≠ db.selfId) (h : Handled db w lsa c now db' w') :
    db'.stored lsa.key = keepNewest (db.stored lsa.key) lsa := by
  unfold LsDb.stored keepNewest
  cases h with
  | ignored hi =>
    obtain ⟨r, hr, hle⟩ := hi.resolve_left ho
    rw [hr, Option.map_some]
    split
    · simp [Option.filter, hle]
    · simp only [if_neg (Nat.not_lt.mpr hle)]
  | unknownDeath _ hd hn => simp [hd, hn]
  | died _ hd r hr hlt =>
    simp only [hd, if_true, hr, Option.map_some, withoutDead]
    cases r.lsa.body with
    | router adjs => simp [hr, Option.filter, hlt]
    | endpoint info => simp [Option.filter, hlt]
  | stored _ hd hnew =>
    rw [HashMap.get_insert, if_pos rfl, if_neg (by simp [hd])]
    cases hr : db.db.get lsa.key with
    | none => rfl
    | some r => simp [hnew r hr]

end Handle

/-- What ties the routes of an endpoint to the record of its key: an advertiser without
a record has no route, and if it is the only one, an advertiser with a record has. -/
structure RouteInv (db : LsDb) (key : LsaKey) (solo : Prop) : Prop where
  no_route : db.db.get key = none → ¬ db.routes.HasRemote key.endpointId key.origin
  only : solo → db.routes.OnlyFrom key.endpointId key.origin
  route : solo → ∀ r, db.db.get key = some r → db.routes.HasRemote key.endpointId key.origin

section Routes

variable {db db' : LsDb} {w w' : Wires} {lsa : Lsa} {c : ConnectionId} {now : Instant} {solo : Prop}

theorem onlyFrom_removeOrigin {e : EndpointId} {origin o : NodeId} (h : db.routes.OnlyFrom e o) :
    (db.removeOrigin origin).routes.OnlyFrom e o := by
  simp only [removeOrigin]
  generalize db.db.entries.filter (fun e => decide (e.1.origin = origin)) = l
  generalize db.routes = t at h ⊢
  induction l generalizing t with
  | nil => exact h
  | cons x l ih =>
    rw [List.foldl_cons]
    exact ih _ h.removeRemoteEndpoint

/-- A withdrawal leaves no route of its key. -/
theorem not_hasRemote_routesWithoutDead (db : LsDb) (key : LsaKey) (r : LsaRecord) :
    ¬ (db.routesWithoutDead key r).HasRemote key.endpointId key.origin := by
  unfold routesWithoutDead
  rw [RouteTable.hasRemote_removeRemoteEndpoint]
  simp

theorem onlyFrom_routesWithoutDead {key : LsaKey} {r : LsaRecord}
    (h : db.routes.OnlyFrom key.endpointId key.origin) :
    (db.routesWithoutDead key r).OnlyFrom key.endpointId key.origin := by
  unfold routesWithoutDead
  apply RouteTable.OnlyFrom.removeRemoteEndpoint
  cases r.lsa.body with
  | router adjs => exact onlyFrom_removeOrigin h
  | endpoint info => exact h.removeRemoteEndpoint

/-- Handling an LSA of the key keeps routes and record together. -/
theorem RouteInv.handled (hi : db.RouteInv lsa.key solo) (h : Handled db w lsa c now db' w') :
    db'.RouteInv lsa.key solo := by
  cases h with
  | ignored => exact hi
  | unknownDeath _ _ hn =>
    refine ⟨fun _ => ?_, fun hs => (hi.only hs).removeRemoteEndpoint, fun _ r hr => ?_⟩
    · rw [RouteTable.hasRemote_removeRemoteEndpoint]
      simp
    · simp only at hr
      rw [hn] at hr
      cases hr
  | died _ _ r hr _ =>
    refine ⟨fun _ => not_hasRemote_routesWithoutDead db lsa.key r,
      fun hs => onlyFrom_routesWithoutDead (hi.only hs), fun _ r' hr' => ?_⟩
    simp only [withoutDead] at hr'
    cases hb : r.lsa.body with
    | router adjs => simp [hb, hr, Option.filter] at hr'
    | endpoint info => simp [hb] at hr'
  | stored _ _ _ hops cost parent _ =>
    refine ⟨fun hn => ?_, fun hs => ?_, fun hs r _ => ?_⟩
    · simp at hn
    · simp only [routesWith]
      cases hadd : db.routes.addRemoteEndpoint lsa.key.endpointId lsa.key.origin (db.routeInfo lsa) with
      | error e => exact hi.only hs
      | ok p => exact (hi.only hs).addRemoteEndpoint hadd
    · simp only [routesWith]
      cases hadd : db.routes.addRemoteEndpoint lsa.key.endpointId lsa.key.origin (db.routeInfo lsa) with
      | ok p => exact RouteTable.hasRemote_addRemoteEndpoint hadd
      | error e =>
        -- A refused route belongs to an entry, so the record was known before.
        simp only
        cases hr : db.db.get lsa.key with
        | some r' => exact hi.route hs r' hr
        | none =>
          cases he : db.routes.table.get lsa.key.endpointId with
          | none =>
            obtain ⟨t', eff, hok⟩ := RouteTable.addRemoteEndpoint_of_none lsa.key.origin
              (db.routeInfo lsa) he
            rw [hok] at hadd
            cases hadd
          | some entry =>
            obtain ⟨hne, hall⟩ := hi.only hs entry he
            obtain ⟨x, hx⟩ := List.exists_mem_of_ne_nil _ hne
            exact ⟨x, by simpa [RouteTable.routesOf, he] using hx, hall x hx⟩

end Routes

/-- What the newest version of a key asks for: alive, it is stored and, unless another
advertiser uses its endpoint, routed to; dead, neither. -/
def NewestWins (db db' : LsDb) (key : LsaKey) (m : Lsa) : Prop :=
  (m.dead = false → db'.stored key = some m ∧
    (db.routes.table.get key.endpointId = none → db'.routes.HasRemote key.endpointId key.origin)) ∧
  (m.dead = true → db'.db.get key = none ∧ ¬ db'.routes.HasRemote key.endpointId key.origin)

/-- Delivering LSAs runs to its end when the links reach all own adjacencies. -/
theorem deliver_total {db : LsDb} (hreach : db.LinksReach db.selfId) (l : List Arrival) :
    ∃ db', db.deliver l = some db' := by
  induction l generalizing db with
  | nil => exact ⟨db, rfl⟩
  | cons a l ih =>
    obtain ⟨db₁, w₁, h₁⟩ := handleLsa_total hreach a.wires a.lsa a.connectionId a.now
    obtain ⟨db', hdel⟩ := ih (hreach.handled (handleLsa_handled h₁))
    refine ⟨db', ?_⟩
    unfold deliver
    simp only [h₁]
    exact hdel

/-- Delivering LSAs keeps what each handled LSA keeps. -/
theorem deliver_induction {P : LsDb → Prop} {l : List Arrival}
    (hstep : ∀ a ∈ l, ∀ db w db' w', P db →
      Handled db w a.lsa a.connectionId a.now db' w' → P db')
    {db db' : LsDb} (h : db.deliver l = some db') (hP : P db) : P db' := by
  induction l generalizing db with
  | nil =>
    obtain rfl := Option.some.inj h
    exact hP
  | cons a l ih =>
    unfold deliver at h
    split at h
    · next db₁ w₁ h₁ =>
      exact ih (fun b hb => hstep b (List.mem_cons_of_mem _ hb)) h
        (hstep a List.mem_cons_self _ _ _ _ hP (handleLsa_handled h₁))
    · cases h

/-- Delivering versions of one key keeps what `keepNewest` keeps. -/
theorem stored_deliver {db db' : LsDb} {key : LsaKey} {l : List Arrival}
    (hkey : ∀ a ∈ l, a.lsa.key = key) (ho : key.origin ≠ db.selfId)
    (h : db.deliver l = some db') :
    db'.stored key = (l.map Arrival.lsa).foldl keepNewest (db.stored key) := by
  induction l generalizing db with
  | nil =>
    obtain rfl := Option.some.inj h
    rfl
  | cons a l ih =>
    have ha := hkey a List.mem_cons_self
    unfold deliver at h
    split at h
    · next db₁ w₁ h₁ =>
      have hh := handleLsa_handled h₁
      have hst := hh.stored_eq (ha.symm ▸ ho)
      rw [ha] at hst
      rw [ih (fun b hb => hkey b (List.mem_cons_of_mem _ hb)) (hh.frame.1.symm ▸ ho) h, hst,
        List.map_cons, List.foldl_cons]
    · cases h

/-- Routes and records stay tied while versions of one key arrive. -/
theorem RouteInv.deliver {db db' : LsDb} {key : LsaKey} {solo : Prop} {l : List Arrival}
    (hi : db.RouteInv key solo) (hkey : ∀ a ∈ l, a.lsa.key = key) (h : db.deliver l = some db') :
    db'.RouteInv key solo := by
  refine deliver_induction (P := fun db => db.RouteInv key solo) ?_ h hi
  intro a ha _ _ _ _ hi hh
  have hk := hkey a ha
  exact hk ▸ RouteInv.handled (hk.symm ▸ hi) hh

/-- Delivering versions of one key that is not known yet, in any order and with any
duplication, leaves what the newest version asks for exactly when that version is
alive or every alive arrival is followed by a newer withdrawal. -/
theorem deliver_newestWins_iff (db : LsDb) (key : LsaKey) (l : List Arrival) (m : Lsa)
    (hkey : ∀ a ∈ l, a.lsa.key = key) (ho : key.origin ≠ db.selfId)
    (hreach : db.LinksReach db.selfId) (hrec : db.db.get key = none)
    (hroute : ¬ db.routes.HasRemote key.endpointId key.origin)
    (hdist : ∀ a ∈ l, ∀ b ∈ l, a.lsa.seq = b.lsa.seq → a.lsa = b.lsa)
    (hm : ∃ a ∈ l, a.lsa = m) (hmax : ∀ a ∈ l, a.lsa.seq ≤ m.seq) :
    (∃ db', db.deliver l = some db' ∧ db.NewestWins db' key m) ↔
      m.dead = false ∨ Superseded (l.map Arrival.lsa) := by
  have hi : db.RouteInv key (db.routes.table.get key.endpointId = none) := by
    refine ⟨fun _ => hroute, fun hs entry he => ?_, fun _ r hr => ?_⟩
    · rw [hs] at he
      cases he
    · rw [hrec] at hr
      cases hr
  have hnone : db.stored key = none := by rw [stored, hrec, Option.map_none]
  obtain ⟨db', hdel⟩ := deliver_total hreach l
  have hst := stored_deliver hkey ho hdel
  have hi' := hi.deliver hkey hdel
  have hgone : db'.db.get key = none ↔ Superseded (l.map Arrival.lsa) := by
    have h := foldl_keepNewest_eq_none_iff (l.map Arrival.lsa) none
    rw [hnone] at hst
    rw [← hst, stored, Option.map_eq_none_iff] at h
    simpa using h
  obtain ⟨a₀, ha₀, rfl⟩ := hm
  constructor
  · rintro ⟨db'', hdel', hwins⟩
    obtain rfl : db' = db'' := Option.some.inj (hdel.symm.trans hdel')
    cases hd : a₀.lsa.dead with
    | false => exact Or.inl rfl
    | true => exact Or.inr (hgone.mp (hwins.2 hd).1)
  · intro hcond
    refine ⟨db', hdel, fun hd => ?_, fun hd => ?_⟩
    · have hkept : db'.stored key = some a₀.lsa := by
        rw [hst, hnone]
        apply foldl_keepNewest_of_alive hd (Or.inl (List.mem_map_of_mem ha₀))
        · intro x hx
          obtain ⟨a, ha, rfl⟩ := List.mem_map.mp hx
          exact hmax a ha
        · intro x hx heq
          obtain ⟨a, ha, rfl⟩ := List.mem_map.mp hx
          exact hdist a ha a₀ ha₀ heq
        · intro c hc
          cases hc
      refine ⟨hkept, fun hs => ?_⟩
      obtain ⟨r, hr, _⟩ := Option.map_eq_some_iff.mp hkept
      exact hi'.route hs r hr
    · have hsup := hcond.resolve_left (by simp [hd])
      exact ⟨hgone.mpr hsup, hi'.no_route (hgone.mpr hsup)⟩

theorem linksReach_new (selfId : NodeId) (now : Instant) : (new selfId now).LinksReach selfId := by
  intro k r adjs hk hb _ adj ha
  simp only [new, HashMap.get_insert, HashMap.get_empty] at hk
  split at hk
  · cases hk
    cases hb
    cases ha
  · cases hk

end LsDb

/-- A version of an anycast endpoint of node 2. -/
def versionOf (seq : Nat) (dead : Bool) : Lsa :=
  ⟨⟨2, 5⟩, seq, dead, .endpoint ⟨.anycast, .global, 0⟩⟩

/-- The arrival of a version over a connection that does not matter. -/
def arrivalOf (seq : Nat) (dead : Bool) : Arrival := ⟨versionOf seq dead, 0, 0, .idle 32⟩

/-- An old version that arrives after its withdrawal comes back to life. -/
theorem withdrawal_forgotten :
    ¬ ∀ (db : LsDb) (key : LsaKey) (l : List Arrival) (m : Lsa), (∀ a ∈ l, a.lsa.key = key) →
      key.origin ≠ db.selfId → db.LinksReach db.selfId → db.db.get key = none →
      ¬ db.routes.HasRemote key.endpointId key.origin →
      (∀ a ∈ l, ∀ b ∈ l, a.lsa.seq = b.lsa.seq → a.lsa = b.lsa) → (∃ a ∈ l, a.lsa = m) →
      (∀ a ∈ l, a.lsa.seq ≤ m.seq) → ∃ db', db.deliver l = some db' ∧ db.NewestWins db' key m := by
  intro h
  obtain ⟨db', hdel, _, hdead⟩ := h (LsDb.new 1 0) ⟨2, 5⟩ [arrivalOf 2 true, arrivalOf 1 false]
    (versionOf 2 true) (by simp [arrivalOf, versionOf]) (by decide) (LsDb.linksReach_new 1 0) rfl
    (by simp [RouteTable.HasRemote, RouteTable.routesOf, LsDb.new, RouteTable.new])
    (by simp [arrivalOf, versionOf]) ⟨arrivalOf 2 true, by simp, rfl⟩ (by simp [arrivalOf, versionOf])
  have hback : (((LsDb.new 1 0).deliver [arrivalOf 2 true, arrivalOf 1 false]).map
      fun db => (db.db.get ⟨2, 5⟩).isSome) = some true := by decide +kernel
  rw [hdel, Option.map_some, (hdead rfl).1] at hback
  cases hback

/-- A withdrawal that arrives after the version it withdraws is final. -/
theorem withdrawal_in_order :
    ∃ db', (LsDb.new 1 0).deliver [arrivalOf 1 false, arrivalOf 2 true] = some db' ∧
      (LsDb.new 1 0).NewestWins db' ⟨2, 5⟩ (versionOf 2 true) := by
  refine (LsDb.deliver_newestWins_iff _ _ _ _ (by simp [arrivalOf, versionOf]) (by decide)
    (LsDb.linksReach_new 1 0) rfl
    (by simp [RouteTable.HasRemote, RouteTable.routesOf, LsDb.new, RouteTable.new])
    (by simp [arrivalOf, versionOf]) ⟨arrivalOf 2 true, by simp, rfl⟩
    (by simp [arrivalOf, versionOf])).mpr (Or.inr ?_)
  simp [Superseded, arrivalOf, versionOf]

end Anybus
