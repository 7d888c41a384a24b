import Anybus.Db.TakeUp
import Anybus.Network.Packets

/-!
# What endpoints do not disturb

The paths of a node depend on its links and on the router LSAs it holds. As long as these
stay, in whatever order the maps are, a network at rest remains one, all nodes search the
same graph, and the way back to a node always leads to a neighbour that is nearer to it.
-/

namespace Anybus

namespace LsDb

/-- The same node with the same links and router LSAs. -/
structure Alike (db db' : LsDb) : Prop where
  self : db'.selfId = db.selfId
  links : ∀ c, db'.links.get c = db.links.get c
  routers : ∀ k, db'.routerLsa k = db.routerLsa k

/-- Router LSAs are stored under the id of their origin. -/
def RoutersKeyed (db : LsDb) : Prop := ∀ k lsa, db.routerLsa k = some lsa → k.endpointId = k.origin

variable {db db' db'' : LsDb}

theorem Alike.refl (db : LsDb) : Alike db db := ⟨rfl, fun _ => rfl, fun _ => rfl⟩

theorem Alike.trans (h : Alike db db') (h' : Alike db' db'') : Alike db db'' :=
  ⟨h'.self.trans h.self, fun c => (h'.links c).trans (h.links c), fun k => (h'.routers k).trans (h.routers k)⟩

/-- Whether a router LSA is stored under a key depends on the LSA stored there. -/
theorem routerLsa_congr {k : LsaKey} (h : db'.lsaAt k = db.lsaAt k) : db'.routerLsa k = db.routerLsa k := by
  have hsub : ∀ {d d' : LsDb}, d'.lsaAt k = d.lsaAt k → ∀ lsa, d'.routerLsa k = some lsa →
      d.routerLsa k = some lsa := by
    intro d d' hd lsa hlsa
    obtain ⟨r, adjs, hr, hb, rfl⟩ := routerLsa_eq_some.mp hlsa
    obtain ⟨r', hr', heq⟩ := lsaAt_eq_some.mp (hd ▸ lsaAt_eq_some.mpr ⟨r, hr, rfl⟩)
    exact routerLsa_eq_some.mpr ⟨r', adjs, hr', heq ▸ hb, heq⟩
  ext lsa
  exact ⟨hsub h lsa, hsub h.symm lsa⟩

/-- No router LSA is stored where an endpoint's is. -/
theorem routerLsa_eq_none {k : LsaKey} (h : ∀ l, db.lsaAt k = some l → l.IsEndpoint) :
    db.routerLsa k = none := by
  cases hr : db.routerLsa k with
  | none => rfl
  | some lsa =>
    obtain ⟨r, adjs, hget, hb, -⟩ := routerLsa_eq_some.mp hr
    obtain ⟨info, hb'⟩ := h _ (lsaAt_eq_some.mpr ⟨r, hget, rfl⟩)
    rw [hb] at hb'
    cases hb'

/-- What a database holds under the key of an endpoint is an endpoint's. -/
theorem RoutersKeyed.isEndpoint (h : db.RoutersKeyed) {k : LsaKey} (hk : k.endpointId ≠ k.origin) {l : Lsa}
    (hl : db.lsaAt k = some l) : l.IsEndpoint := by
  obtain ⟨r, hr, rfl⟩ := lsaAt_eq_some.mp hl
  cases hb : r.lsa.body with
  | endpoint info => exact ⟨info, hb⟩
  | router adjs => exact absurd (h k r.lsa (routerLsa_eq_some.mpr ⟨r, adjs, hr, hb, rfl⟩)) hk

/-- A version of an endpoint's LSA that is taken up leaves the router LSAs as they are. -/
theorem TakesUp.routers {w : Wires} {now : Instant} {op : Op} {v : Lsa} {inC : Option ConnectionId}
    (h : TakesUp db w now op db' v inC) (hkeyed : db.RoutersKeyed) (hk : v.key.endpointId ≠ v.key.origin)
    (hv : v.IsEndpoint) (k : LsaKey) : db'.routerLsa k = db.routerLsa k := by
  by_cases heq : k = v.key
  · subst heq
    rw [routerLsa_eq_none fun l hl => hkeyed.isEndpoint hk hl, routerLsa_eq_none]
    intro l hl
    rw [h.stored, Lsa.left] at hl
    split at hl
    · cases hl
    · rwa [← Option.some.inj hl]
  · exact routerLsa_congr (h.others k heq)

theorem RoutersKeyed.unique (h : db.RoutersKeyed) : db.UniqueRouters := by
  apply UniqueRouters.of_keyed
  rintro ⟨k, r⟩ he adjs hb
  exact h k r.lsa (routerLsa_eq_some.mpr ⟨r, adjs, HashMap.mem_entries_iff.mp he, hb, rfl⟩)

/-- The adjacencies of a node are those in its router LSA. -/
theorem mem_ownAdjacencies (hu : db.UniqueRouters) {adj : Adjacency} :
    adj ∈ db.ownAdjacencies ↔ ∃ k lsa adjs, db.routerLsa k = some lsa ∧ lsa.body = .router adjs ∧
      k.origin = db.selfId ∧ adj ∈ adjs := by
  unfold ownAdjacencies rootAdjacencies
  constructor
  · intro h
    cases hn : (routerLsas db.db).get db.selfId with
    | none => simp [hn] at h
    | some adjs =>
      rw [hn, Option.getD_some] at h
      obtain ⟨k, r, hk, hb, ho⟩ := get_routerLsas hn
      exact ⟨k, r.lsa, adjs, routerLsa_eq_some.mpr ⟨r, adjs, hk, hb, rfl⟩, hb, ho, h⟩
  · rintro ⟨k, lsa, adjs, hlsa, hb, ho, hadj⟩
    obtain ⟨r, adjs', hk, hb', rfl⟩ := routerLsa_eq_some.mp hlsa
    obtain ⟨adjs₁, hadjs₁⟩ := exists_get_routerLsas hk hb
    obtain ⟨k₁, r₁, hk₁, hb₁, ho₁⟩ := get_routerLsas hadjs₁
    obtain rfl := hu k₁ k r₁ r adjs₁ adjs hk₁ hk hb₁ hb ho₁
    obtain rfl : r₁ = r := Option.some.inj (hk₁.symm.trans hk)
    rw [hb, LsaBody.router.injEq] at hb₁
    rw [← ho, hadjs₁, Option.getD_some, ← hb₁]
    exact hadj

namespace Alike

variable (h : Alike db db')

include h

theorem keyed (hkeyed : db.RoutersKeyed) : db'.RoutersKeyed := by
  intro k lsa hlsa
  rw [h.routers k] at hlsa
  exact hkeyed k lsa hlsa

theorem mem_ownAdjacencies_iff (hkeyed : db.RoutersKeyed) {adj : Adjacency} :
    adj ∈ db'.ownAdjacencies ↔ adj ∈ db.ownAdjacencies := by
  rw [mem_ownAdjacencies (h.keyed hkeyed).unique, mem_ownAdjacencies hkeyed.unique]
  simp only [h.routers, h.self]

/-- Both search the same graph. -/
theorem spfGraph_eq (hkeyed : db.RoutersKeyed) : db'.spfGraph = db.spfGraph := by
  have hedge : ∀ {d d' : LsDb}, (∀ k, d'.routerLsa k = d.routerLsa k) → ∀ u v c,
      d.lsaGraph.Edge u v c → d'.lsaGraph.Edge u v c := by
    rintro d d' hd u v c ⟨k, r, adjs, hk, hb, ho, hadj⟩
    have hlsa := routerLsa_eq_some.mpr ⟨r, adjs, hk, hb, rfl⟩
    rw [← hd k] at hlsa
    obtain ⟨r', adjs', hk', hb', heq⟩ := routerLsa_eq_some.mp hlsa
    exact ⟨k, r', adjs, hk', by rw [heq, hb], ho, hadj⟩
  have hgraph : db'.lsaGraph = db.lsaGraph := by
    refine congrArg WGraph.mk (funext fun u => funext fun v => funext fun c => propext ?_)
    exact ⟨hedge (fun k => (h.routers k).symm) u v c, hedge h.routers u v c⟩
  unfold spfGraph
  rw [(h.keyed hkeyed).unique.routerGraph_eq, hkeyed.unique.routerGraph_eq, hgraph]

theorem linksMatch (hkeyed : db.RoutersKeyed) (hm : db.LinksMatch) : db'.LinksMatch := by
  intro adj hadj
  rw [h.mem_ownAdjacencies_iff hkeyed] at hadj
  rw [h.links]
  exact hm adj hadj

theorem linksAdvertised (hkeyed : db.RoutersKeyed) (ha : db.LinksAdvertised) : db'.LinksAdvertised := by
  intro c link hl
  rw [h.links] at hl
  obtain ⟨adj, hadj, hof⟩ := ha c link hl
  exact ⟨adj, (h.mem_ownAdjacencies_iff hkeyed).mpr hadj, hof⟩

end Alike

end LsDb

namespace Converged

variable {ι : Type*} {db db' : ι → LsDb} {fib fib' : ι → ForwardingTable} {wire : Wiring ι}

theorem routersKeyed (net : Converged db fib wire) (i : ι) : (db i).RoutersKeyed := net.keyed i

/-- A network whose links and router LSAs stay remains at rest. -/
theorem of_alike (net : Converged db fib wire) (h : ∀ i, LsDb.Alike (db i) (db' i))
    (hbuilt : ∀ i, ∃ db'', (db' i).buildFib = some (db'', fib' i)) : Converged db' fib' wire where
  built := hbuilt
  keyed i := (h i).keyed (net.routersKeyed i)
  same i j k := by rw [(h i).routers, (h j).routers, net.same i j]
  positive i k lsa adjs hk := net.positive i k lsa adjs ((h i).routers k ▸ hk)
  linksMatch i := (h i).linksMatch (net.routersKeyed i) (net.linksMatch i)
  advertised i := (h i).linksAdvertised (net.routersKeyed i) (net.advertised i)
  wired i c link hl := by
    rw [(h i).links] at hl
    obtain ⟨hpeer, back, hback, hpeer', hwire⟩ := net.wired i c link hl
    refine ⟨(h _).self.trans hpeer, back, ?_, hpeer'.trans (h i).self.symm, hwire⟩
    rw [(h _).links]
    exact hback

/-- The way back to a node leads to a neighbour that is nearer to it. -/
def Nearer (db : ι → LsDb) (i : ι) (d : LsDb) : Prop :=
  ∀ n link, d.nextHop.get n = some link →
    (db i).spfGraph.dist link.peerId n < (db i).spfGraph.dist (db i).selfId n

/-- So it is after the paths were computed anew. -/
theorem nearer_of_built [DecidableEq ι] (net : Converged db fib wire) {i : ι} {d d' : LsDb}
    {table : ForwardingTable} (h : LsDb.Alike (db i) d) (hb : d.buildFib = some (d', table)) :
    Nearer db i d' := by
  -- The network in which only this node has changed is at rest too.
  have halike : ∀ j, LsDb.Alike (db j) (Function.update db i d j) := by
    intro j
    by_cases hj : j = i
    · subst hj
      rw [Function.update_self]
      exact h
    · rw [Function.update_of_ne hj]
      exact .refl _
  have hnet : Converged (Function.update db i d) (Function.update fib i table) wire := by
    refine net.of_alike halike fun j => ?_
    by_cases hj : j = i
    · subst hj
      rw [Function.update_self, Function.update_self]
      exact ⟨d', hb⟩
    · rw [Function.update_of_ne hj, Function.update_of_ne hj]
      exact net.built j
  intro n link hn
  obtain ⟨s, -, htable, hd'⟩ := LsDb.nextHop_of_built hb
  have hhop : (Function.update fib i table i).nextHop.get n = some link := by
    rw [Function.update_self, htable, ← hd']
    exact hn
  have hlt := hnet.nearer (o := i) hhop
  rw [Function.update_self, h.spfGraph_eq (net.routersKeyed i), h.self] at hlt
  exact hlt

/-- However a node settles, it stays alike, and its ways back lead nearer. -/
theorem nearer_of_settles [DecidableEq ι] (net : Converged db fib wire) {i : ι} {d d' : LsDb}
    (hs : LsDb.Settles d d') (h : LsDb.Alike (db i) d) (hn : Nearer db i d) :
    LsDb.Alike d d' ∧ Nearer db i d' := by
  induction hs with
  | refl => exact ⟨.refl _, hn⟩
  | @rehash d₁ d₂ _ hre ih =>
    obtain ⟨halike, hnear⟩ := ih
    have hrehash : LsDb.Alike d₁ d₂ := by
      refine ⟨hre.selfId, hre.get_link, fun k => LsDb.routerLsa_congr ?_⟩
      rw [LsDb.lsaAt, LsDb.lsaAt, hre.get_record]
    refine ⟨halike.trans hrehash, fun n link hhop => hnear n link ?_⟩
    rwa [HashMap.get_eq_of_perm hre.hops n]
  | @buildFib d₁ d₂ table _ hfib ih =>
    obtain ⟨halike, -⟩ := ih
    have hbuilt : LsDb.Alike d₁ d₂ := by
      obtain ⟨s, -, rfl, -⟩ := LsDb.buildFib_eq_some_iff.mp hfib
      exact ⟨rfl, fun _ => rfl, fun _ => rfl⟩
    exact ⟨halike.trans hbuilt, net.nearer_of_built (h.trans halike) hfib⟩

end Converged

end Anybus
