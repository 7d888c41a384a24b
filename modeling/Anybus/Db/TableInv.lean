import Anybus.Core.Machine
import Anybus.Db.Routes

/-!
# The representation of the route table

Every entry of the table has a route, all its routes are of its kind, a unicast entry has
exactly one, and no node is listed twice as an advertiser. The adding operations create the
entry before they check the request; a request that is refused leaves no trace all the same.
-/

namespace Anybus

/-- What an entry must satisfy. -/
structure LsRouteEntry.Sound (entry : LsRouteEntry) : Prop where
  nonempty : entry.routes ≠ []
  kinds : ∀ r ∈ entry.routes, r.kind = entry.kind
  unicast : entry.kind = .unicast → entry.routes.length = 1
  advertisers : ∀ origin, entry.routes.countP (fun r => r.isRemoteOf origin) ≤ 1

namespace LsRouteEntry

variable {entry : LsRouteEntry}

/-- Some of the routes, if there are any left. -/
theorem Sound.filter (h : entry.Sound) {p : LsRoute → Bool} (hne : entry.routes.filter p ≠ []) :
    ({ entry with routes := entry.routes.filter p } : LsRouteEntry).Sound where
  nonempty := hne
  kinds r hr := h.kinds r (List.mem_of_mem_filter hr)
  unicast hk := by
    have hle : (entry.routes.filter p).length ≤ entry.routes.length := List.length_filter_le _ _
    have hpos : 0 < (entry.routes.filter p).length := List.length_pos_of_ne_nil hne
    have hone := h.unicast hk
    change (entry.routes.filter p).length = 1
    omega
  advertisers origin := (List.filter_sublist.countP_le).trans (h.advertisers origin)

/-- A change of one route that keeps where it leads and its kind. -/
theorem Sound.modifyFirst (h : entry.Sound) {p : LsRoute → Bool} {f : LsRoute → LsRoute}
    (hvia : ∀ r, (f r).via = r.via) (hkind : ∀ r, (f r).kind = r.kind) :
    ({ entry with routes := Anybus.modifyFirst p f entry.routes } : LsRouteEntry).Sound := by
  have hmap : ∀ l : List LsRoute, (Anybus.modifyFirst p f l).map (fun r => (r.via, r.kind)) =
      l.map fun r => (r.via, r.kind) := by
    intro l
    induction l with
    | nil => rfl
    | cons r l ih =>
      unfold Anybus.modifyFirst
      split
      · simp only [List.map_cons, hvia, hkind]
      · simp only [List.map_cons, ih]
  have hlen : ∀ l : List LsRoute, (Anybus.modifyFirst p f l).length = l.length := by
    intro l
    have hlen := congrArg List.length (hmap l)
    rwa [List.length_map, List.length_map] at hlen
  refine ⟨?_, ?_, ?_, ?_⟩
  · intro hnil
    change Anybus.modifyFirst p f entry.routes = [] at hnil
    have hzero := hlen entry.routes
    rw [hnil, List.length_nil] at hzero
    exact h.nonempty (List.eq_nil_of_length_eq_zero hzero.symm)
  · intro r hr
    have hmem : (r.via, r.kind) ∈ entry.routes.map fun r => (r.via, r.kind) := by
      rw [← hmap]
      exact List.mem_map.mpr ⟨r, hr, rfl⟩
    obtain ⟨r', hr', heq⟩ := List.mem_map.mp hmem
    rw [← (Prod.mk.inj heq).2]
    exact h.kinds r' hr'
  · intro hk
    exact (hlen _).trans (h.unicast hk)
  · intro origin
    have hcount : ∀ l : List LsRoute, l.countP (fun r => r.isRemoteOf origin) =
        (l.map fun r => (r.via, r.kind)).countP fun v => decide (v.1 = .remote origin) := by
      intro l
      rw [List.countP_map]
      rfl
    change (Anybus.modifyFirst p f entry.routes).countP _ ≤ 1
    rw [hcount, hmap, ← hcount]
    exact h.advertisers origin

/-- One more route, of the kind of the entry, that the entry has no place for yet. -/
theorem sound_append {routes : List LsRoute} {kind : RouteKind} {route : LsRoute}
    (hkinds : ∀ r ∈ routes, r.kind = kind) (hroute : route.kind = kind)
    (huni : kind = .unicast → routes = [])
    (hcount : ∀ origin, routes.countP (fun r => r.isRemoteOf origin) +
      (if route.isRemoteOf origin then 1 else 0) ≤ 1) :
    (⟨routes ++ [route], kind⟩ : LsRouteEntry).Sound := by
  refine ⟨by simp, ?_, ?_, ?_⟩
  · intro r hr
    rw [List.mem_append, List.mem_singleton] at hr
    obtain hr | rfl := hr
    · exact hkinds r hr
    · exact hroute
  · intro hk
    rw [huni hk]
    rfl
  · intro origin
    have hsum := hcount origin
    rw [List.countP_append, List.countP_singleton]
    exact hsum

end LsRouteEntry

namespace RouteTable

/-- The entry of an endpoint, created if there is none, and the table that holds it. -/
def orInsert (t : RouteTable) (endpointId : EndpointId) (kind : RouteKind) :
    RouteTable × LsRouteEntry :=
  match t.table.get endpointId with
  | some entry => (t, entry)
  | none => (t.setEntry endpointId ⟨[], kind⟩, ⟨[], kind⟩)

/-- Registering a local listener in place: the table is written to before the request is
checked, and what was written stays when it is refused. -/
def addEndpointInPlace (t : RouteTable) (endpointId : EndpointId) (info : EndpointInfo)
    (sender : Sender) : RouteTable × Except RouteTableError Effects :=
  let r := t.orInsert endpointId info.kind
  if r.2.kind ≠ info.kind then (r.1, .error .mismatchedRouteKind)
  else
    let lsRoute : LsRoute := ⟨.loc sender, info.cost, info.realm, info.kind⟩
    let pushed := r.1.setEntry endpointId { r.2 with routes := r.2.routes ++ [lsRoute] }
    match info.kind with
    | .unicast =>
      if r.2.routes.isEmpty then (pushed, .ok (.addLsa endpointId info))
      else (r.1, .error .duplicateUnicast)
    | .anycast =>
      match minLocalCost r.2.routes with
      | none => (pushed, .ok (.addLsa endpointId info))
      | some previous =>
        if info.cost < previous then (pushed, .ok (.updateLsa endpointId info.cost))
        else (pushed, .ok .noop)
    | .broadcast | .multicast =>
      if r.2.routes.any fun r => r.via.isLocal then (pushed, .ok .noop)
      else (pushed, .ok (.addLsa endpointId info))
    | .node => (r.1, .ok .noop)

/-- Learning of an advertiser in place. -/
def addRemoteEndpointInPlace (t : RouteTable) (endpointId : EndpointId) (origin : NodeId)
    (info : EndpointInfo) : RouteTable × Except RouteTableError Effects :=
  let r := t.orInsert endpointId info.kind
  if r.2.kind ≠ info.kind then (r.1, .error .mismatchedRouteKind)
  else
    match r.2.routes.find? fun r => r.isRemoteOf origin with
    | some existing =>
      if existing.cost ≠ info.cost ∨ existing.realm ≠ info.realm then
        (r.1.setEntry endpointId { r.2 with
          routes := modifyFirst (fun r => r.isRemoteOf origin)
            (fun r => { r with cost := info.cost, realm := info.realm }) r.2.routes },
          .ok .rebuildFib)
      else (r.1, .ok .noop)
    | none =>
      if r.2.kind = .unicast ∧ ¬ r.2.routes.isEmpty then (r.1, .error .duplicateUnicast)
      else
        let effect := if r.2.routes.all fun r => r.via.isLocal then Effects.rebuildFib else .noop
        (r.1.setEntry endpointId { r.2 with
          routes := r.2.routes ++ [⟨.remote origin, info.cost, info.realm, info.kind⟩] },
          .ok effect)

/-- The outcome of a call that either changes the table or refuses. -/
def outcome {ε α : Type} (t : RouteTable) : Except ε (RouteTable × α) → RouteTable × Except ε α
  | .ok (t', a) => (t', .ok a)
  | .error e => (t, .error e)

theorem setEntry_setEntry (t : RouteTable) (e : EndpointId) (entry entry' : LsRouteEntry) :
    (t.setEntry e entry).setEntry e entry' = t.setEntry e entry' := by
  unfold setEntry
  rw [HashMap.insert_insert]

/-- A new entry is of the requested kind and empty, so that no request is refused that has
created one. -/
theorem addEndpointInPlace_eq (t : RouteTable) (e : EndpointId) (info : EndpointInfo)
    (sender : Sender) (hkind : info.kind ≠ .node) :
    t.addEndpointInPlace e info sender = t.outcome (t.addEndpoint e info sender) := by
  unfold addEndpointInPlace addEndpoint orInsert entryOr
  cases he : t.table.get e with
  | none =>
    simp only [Option.getD_none, ne_eq, not_true_eq_false, if_false, setEntry_setEntry]
    cases hk : info.kind with
    | node => exact absurd hk hkind
    | unicast | anycast | broadcast | multicast => rfl
  | some entry =>
    simp only [Option.getD_some]
    by_cases hne : entry.kind = info.kind
    · rw [if_neg (not_not.mpr hne), if_neg (not_not.mpr hne)]
      cases hk : info.kind with
      | node => exact absurd hk hkind
      | unicast =>
        simp only
        split <;> rfl
      | anycast =>
        cases hmin : minLocalCost entry.routes with
        | none => rfl
        | some previous =>
          simp only
          split <;> rfl
      | broadcast | multicast =>
        simp only
        split <;> rfl
    · rw [if_pos hne, if_pos hne]
      rfl

theorem addRemoteEndpointInPlace_eq (t : RouteTable) (e : EndpointId) (origin : NodeId)
    (info : EndpointInfo) :
    t.addRemoteEndpointInPlace e origin info = t.outcome (t.addRemoteEndpoint e origin info) := by
  unfold addRemoteEndpointInPlace addRemoteEndpoint orInsert entryOr
  cases he : t.table.get e with
  | none =>
    simp only [Option.getD_none, ne_eq, not_true_eq_false, if_false, setEntry_setEntry,
      List.find?_nil, List.isEmpty_nil, and_false]
    rfl
  | some entry =>
    simp only [Option.getD_some]
    by_cases hne : entry.kind = info.kind
    · rw [if_neg (not_not.mpr hne), if_neg (not_not.mpr hne)]
      cases hfind : entry.routes.find? fun r => r.isRemoteOf origin with
      | none =>
        simp only
        split <;> rfl
      | some existing =>
        simp only
        split <;> rfl
    · rw [if_pos hne, if_pos hne]
      rfl

/-- Every entry is sound. -/
def Sound (t : RouteTable) : Prop := ∀ e entry, t.table.get e = some entry → entry.Sound

variable {t : RouteTable} {e : EndpointId}

theorem sound_new : new.Sound := by
  intro e entry he
  cases he

theorem Sound.setEntry (h : t.Sound) {entry : LsRouteEntry} (hentry : entry.Sound) :
    (t.setEntry e entry).Sound := by
  intro e' entry' he'
  rw [get_setEntry] at he'
  split at he'
  · cases he'
    exact hentry
  · exact h e' entry' he'

theorem Sound.removeEntry (h : t.Sound) : (t.removeEntry e).Sound := by
  intro e' entry' he'
  rw [get_removeEntry] at he'
  split at he'
  · cases he'
  · exact h e' entry' he'

/-- What an entry of the kind of a request holds before the request. -/
theorem Sound.before (h : t.Sound) {kind : RouteKind}
    (hkind : ∀ entry, t.table.get e = some entry → entry.kind = kind) :
    (∀ r ∈ t.routesOf e, r.kind = kind) ∧
      ∀ origin, (t.routesOf e).countP (fun r => r.isRemoteOf origin) ≤ 1 := by
  unfold routesOf
  cases he : t.table.get e with
  | none => exact ⟨fun r hr => absurd hr List.not_mem_nil, fun _ => Nat.zero_le 1⟩
  | some entry =>
    have hsound := h e entry he
    exact ⟨fun r hr => (hsound.kinds r hr).trans (hkind entry he), hsound.advertisers⟩

theorem Sound.addEndpoint (h : t.Sound) {info : EndpointInfo} {sender : Sender} {t' : RouteTable}
    {effect : Effects} (hnode : info.kind ≠ .node)
    (hadd : t.addEndpoint e info sender = .ok (t', effect)) : t'.Sound := by
  obtain ⟨hkind, huni, rfl, -⟩ := addEndpoint_spec hadd
  obtain ⟨hkinds, hcount⟩ := h.before hkind
  apply h.setEntry
  unfold pushed
  rw [if_neg hnode]
  refine LsRouteEntry.sound_append hkinds rfl huni fun origin => ?_
  have hlocal : LsRoute.isRemoteOf ⟨.loc sender, info.cost, info.realm, info.kind⟩ origin = false := by
    simp [LsRoute.isRemoteOf]
  rw [hlocal]
  exact hcount origin

theorem Sound.addRemoteEndpoint (h : t.Sound) {origin : NodeId} {info : EndpointInfo}
    {t' : RouteTable} {effect : Effects}
    (hadd : t.addRemoteEndpoint e origin info = .ok (t', effect)) : t'.Sound := by
  obtain ⟨hkind, hget⟩ := addRemoteEndpoint_spec hadd
  obtain ⟨hkinds, hcount⟩ := h.before hkind
  intro e' entry he'
  rw [hget] at he'
  split at he'
  · cases he'
    unfold learned
    split
    · next hany =>
      -- The advertiser is known, so that there is an entry, and its route is rewritten.
      obtain ⟨route, hroute, -⟩ := List.any_eq_true.mp hany
      obtain ⟨entry, he⟩ := entry_of_mem_routesOf hroute
      have hroutes : t.routesOf e = entry.routes := by simp [routesOf, he]
      rw [hroutes, ← hkind entry he]
      exact (h e entry he).modifyFirst (by exact fun _ => rfl) (by exact fun _ => rfl)
    · next hany =>
      have hnew : ∀ r ∈ t.routesOf e, r.isRemoteOf origin = false := by
        simpa using hany
      refine LsRouteEntry.sound_append hkinds rfl ?_ fun origin' => ?_
      · intro hu
        by_contra hne
        have hunknown : ¬ ∃ r ∈ t.routesOf e, r.via = .remote origin := by
          rintro ⟨r, hr, hv⟩
          exact absurd (decide_eq_true hv) (ne_true_of_eq_false (hnew r hr))
        obtain ⟨err, herr⟩ := addRemoteEndpoint_refused hu hne hunknown
        rw [hadd] at herr
        cases herr
      · by_cases heq : origin = origin'
        · subst heq
          have hzero : (t.routesOf e).countP (fun r => r.isRemoteOf origin) = 0 := by
            rw [List.countP_eq_zero]
            exact fun r hr => ne_true_of_eq_false (hnew r hr)
          rw [hzero]
          split <;> omega
        · have hother : LsRoute.isRemoteOf ⟨.remote origin, info.cost, info.realm, info.kind⟩ origin' =
              false := by
            simp [LsRoute.isRemoteOf, heq]
          rw [hother]
          exact hcount origin'
  · exact h e' entry he'

/-- Both removals keep some of the routes and drop an entry that is left empty. -/
theorem Sound.keep (h : t.Sound) {entry : LsRouteEntry} (he : t.table.get e = some entry)
    (p : LsRoute → Bool) :
    (if (entry.routes.filter p).isEmpty then t.removeEntry e
      else t.setEntry e { entry with routes := entry.routes.filter p }).Sound := by
  split
  · exact h.removeEntry
  · next hne =>
    rw [List.isEmpty_iff] at hne
    exact h.setEntry ((h e entry he).filter hne)

theorem Sound.removeEndpoint (h : t.Sound) (w : Wires) : (t.removeEndpoint w e).1.Sound := by
  unfold RouteTable.removeEndpoint
  cases he : t.table.get e with
  | none => exact h
  | some entry =>
    have hkeep := h.keep he (LsRoute.staysOpen w)
    simp only
    split
    · next hempty =>
      rwa [if_pos hempty] at hkeep
    · next hempty =>
      rw [if_neg hempty] at hkeep
      split
      · split
        · split
          · exact hkeep
          · exact hkeep
        · exact hkeep
      · exact hkeep

theorem Sound.removeRemoteEndpoint (h : t.Sound) (origin : NodeId) :
    (t.removeRemoteEndpoint e origin).1.Sound := by
  unfold RouteTable.removeRemoteEndpoint
  cases he : t.table.get e with
  | none => exact h
  | some entry =>
    have hkeep := h.keep he fun r => !r.isRemoteOf origin
    simp only
    split
    · next hempty =>
      rwa [if_pos hempty] at hkeep
    · next hempty =>
      rwa [if_neg hempty] at hkeep

theorem Sound.setAnycastCost (h : t.Sound) {sender : Sender} {cost : Cost} {t' : RouteTable}
    {answer : SetAnycastCostOutcome} (hset : t.setAnycastCost e sender cost = .ok (t', answer)) :
    t'.Sound := by
  obtain ⟨rfl, -⟩ | ⟨entry, -, -, he, -, rfl, -⟩ := setAnycastCost_cases hset
  · exact h
  · exact h.setEntry ((h e entry he).modifyFirst (by exact fun _ => rfl) (by exact fun _ => rfl))

/-- The outcome is the new table, or the old one if the call was refused. -/
theorem Sound.outcome {ε α : Type} (h : t.Sound) {result : Except ε (RouteTable × α)}
    (hok : ∀ t' a, result = .ok (t', a) → t'.Sound) : (t.outcome result).1.Sound := by
  cases result with
  | error err => exact h
  | ok p => exact hok p.1 p.2 rfl

theorem outcome_refused {ε α : Type} {result : Except ε (RouteTable × α)} {err : ε}
    (h : (t.outcome result).2 = .error err) : (t.outcome result).1 = t := by
  cases result with
  | error err => rfl
  | ok p => cases h

end RouteTable

/-- The operations on the table that may be called, with the channels as they are then. -/
inductive TableCall where
  | addEndpoint (endpointId : EndpointId) (info : EndpointInfo) (sender : Sender)
  | setAnycastCost (endpointId : EndpointId) (sender : Sender) (cost : Cost)
  | removeEndpoint (w : Wires) (endpointId : EndpointId)
  | addRemoteEndpoint (endpointId : EndpointId) (origin : NodeId) (info : EndpointInfo)
  | removeRemoteEndpoint (endpointId : EndpointId) (origin : NodeId)

namespace RouteTable

/-- Whether a call was refused. -/
def refused {ε α : Type} : Except ε α → Bool
  | .ok _ => false
  | .error _ => true

/-- The table after a call, and whether it returned an error. -/
def call (t : RouteTable) : TableCall → RouteTable × Bool
  | .addEndpoint e info sender => (t.addEndpointInPlace e info sender).map id refused
  | .setAnycastCost e sender cost => (t.outcome (t.setAnycastCost e sender cost)).map id refused
  | .removeEndpoint w e => ((t.removeEndpoint w e).1, false)
  | .addRemoteEndpoint e origin info => (t.addRemoteEndpointInPlace e origin info).map id refused
  | .removeRemoteEndpoint e origin => ((t.removeRemoteEndpoint e origin).1, false)

/-- A listener registers as unicast, anycast or broadcast. -/
def Registers : TableCall → Prop
  | .addEndpoint _ info _ => info.kind = .unicast ∨ info.kind = .anycast ∨ info.kind = .broadcast
  | _ => True

/-- A table over its calls. -/
def machine : Machine RouteTable TableCall where
  init t := t = new
  step t c t' := t' = (t.call c).1

variable {t : RouteTable}

theorem refused_eq_true_iff {ε α : Type} {result : Except ε α} :
    refused result = true ↔ ∃ err, result = .error err := by
  cases result with
  | ok a => simp [refused]
  | error err => simp [refused]

/-- What a call that may be refused does to a sound table. -/
theorem Sound.answer {ε α : Type} (h : t.Sound) {result : Except ε (RouteTable × α)}
    (hok : ∀ t' a, result = .ok (t', a) → t'.Sound) :
    ((t.outcome result).map id refused).1.Sound ∧
      (((t.outcome result).map id refused).2 = true →
        ((t.outcome result).map id refused).1 = t) := by
  refine ⟨h.outcome hok, fun hrefused => ?_⟩
  obtain ⟨err, herr⟩ := refused_eq_true_iff.mp hrefused
  exact outcome_refused herr

/-- Each operation keeps the table sound, and a refused one leaves it as it was. -/
theorem Sound.call (h : t.Sound) {c : TableCall} (hc : Registers c) :
    (t.call c).1.Sound ∧ ((t.call c).2 = true → (t.call c).1 = t) := by
  cases c with
  | addEndpoint e info sender =>
    have hnode : info.kind ≠ .node := by
      intro hnode
      simp [Registers, hnode] at hc
    simp only [RouteTable.call]
    rw [addEndpointInPlace_eq t e info sender hnode]
    exact h.answer fun _ _ hadd => h.addEndpoint hnode hadd
  | setAnycastCost e sender cost => exact h.answer fun _ _ hset => h.setAnycastCost hset
  | removeEndpoint w e => exact ⟨h.removeEndpoint w, fun hrefused => by cases hrefused⟩
  | addRemoteEndpoint e origin info =>
    simp only [RouteTable.call]
    rw [addRemoteEndpointInPlace_eq]
    exact h.answer fun _ _ hadd => h.addRemoteEndpoint hadd
  | removeRemoteEndpoint e origin =>
    exact ⟨h.removeRemoteEndpoint origin, fun hrefused => by cases hrefused⟩

theorem sound_of_reaches (h : machine.Reaches (fun _ => Registers) t) : t.Sound := by
  refine h.invariant ?_ ?_
  · intro t ht
    rw [ht]
    exact sound_new
  · intro t c t' ht hc hstep
    rw [hstep]
    exact (ht.call hc).1

/-- However the table is used, every entry has a route, routes of its own kind only, exactly
one if it is unicast, and at most one for each advertiser; and no refused call, whichever
comes next, changes the table. -/
theorem table_stays_sound (h : machine.Reaches (fun _ => Registers) t) :
    (∀ e entry, t.table.get e = some entry →
      entry.routes ≠ [] ∧ (∀ r ∈ entry.routes, r.kind = entry.kind) ∧
        (entry.kind = .unicast → entry.routes.length = 1) ∧
        ∀ origin, entry.routes.countP (fun r => r.isRemoteOf origin) ≤ 1) ∧
      ∀ c, Registers c → (t.call c).2 = true → (t.call c).1 = t := by
  have ht := sound_of_reaches h
  refine ⟨fun e entry he => ?_, fun c hc => (ht.call hc).2⟩
  have hentry := ht e entry he
  exact ⟨hentry.nonempty, hentry.kinds, hentry.unicast, hentry.advertisers⟩

/-- A unicast endpoint with a listener. -/
def takenTable : RouteTable := (new.call (.addEndpoint 7 ⟨.unicast, .process, 0⟩ 3)).1

theorem taken_unicast_refused :
    (takenTable.table.get 7).map (fun entry => entry.routes.length) = some 1 ∧
    takenTable.call (.addRemoteEndpoint 7 2 ⟨.unicast, .process, 0⟩) = (takenTable, true) := by
  have hreach : machine.Reaches (fun _ => Registers) takenTable :=
    .step (.addEndpoint 7 ⟨.unicast, .process, 0⟩ 3) (.init rfl) (Or.inl rfl) rfl
  obtain ⟨hsound, hrefused⟩ := table_stays_sound hreach
  constructor
  · cases he : takenTable.table.get 7 with
    | none => cases he
    | some entry =>
      have hkind : (takenTable.table.get 7).map LsRouteEntry.kind = some .unicast := by decide
      rw [he] at hkind
      rw [Option.map_some, (hsound 7 entry he).2.2.1 (Option.some.inj hkind)]
  · have hanswer : (takenTable.call (.addRemoteEndpoint 7 2 ⟨.unicast, .process, 0⟩)).2 = true := by
      decide
    exact Prod.ext (hrefused _ trivial hanswer) hanswer

end RouteTable

end Anybus
