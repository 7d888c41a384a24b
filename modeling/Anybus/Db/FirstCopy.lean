import Anybus.Db.Newest

/-!
# Copies of one version

Every hop filters a Router LSA by the realms of its link and keeps key and number, so
copies of one version that come over different paths may differ in their bodies. A
node takes the first copy it handles and passes by the others, because only a greater
number is news. What it stores depends on the order exactly when the version is news
and two of its copies differ.
-/

namespace Anybus

/-- The copy of an LSA that comes out of a path of links, if every link carries it. -/
def Lsa.copyOver (lsa : Lsa) (path : List Link) : Option Lsa :=
  path.foldlM (fun copy link => link.permits copy) lsa

/-- The realms that all links of a path share. -/
def commonRealms (link : Link) (path : List Link) : RealmList :=
  path.foldl (fun realms next => realms ∩ next.realms) link.realms

/-- A copy keeps the key, the number and the dead flag of its version. -/
theorem Lsa.copyOver_some {lsa copy : Lsa} {path : List Link} (h : lsa.copyOver path = some copy) :
    copy.key = lsa.key ∧ copy.seq = lsa.seq ∧ copy.dead = lsa.dead := by
  induction path generalizing lsa with
  | nil =>
    obtain rfl := Option.some.inj h
    exact ⟨rfl, rfl, rfl⟩
  | cons link path ih =>
    obtain ⟨next, hnext, hcopy⟩ := Option.bind_eq_some_iff.mp h
    obtain ⟨hkey, hseq, hdead⟩ := Link.permits_some hnext
    obtain ⟨hkey', hseq', hdead'⟩ := ih hcopy
    exact ⟨hkey'.trans hkey, hseq'.trans hseq, hdead'.trans hdead⟩

/-- The adjacencies that two links in a row leave are those their common realms leave. -/
theorem filter_realms_twice (adjs : List Adjacency) (realms realms' : RealmList) :
    ((((adjs.map fun adj => { adj with realms := adj.realms ∩ realms }).filter
        fun adj => adj.realms ≠ ∅).map fun adj => { adj with realms := adj.realms ∩ realms' }).filter
        fun adj => adj.realms ≠ ∅) =
      (adjs.map fun adj => { adj with realms := adj.realms ∩ (realms ∩ realms') }).filter
        fun adj => adj.realms ≠ ∅ := by
  induction adjs with
  | nil => rfl
  | cons adj adjs ih =>
    have hassoc := Finset.inter_assoc adj.realms realms realms'
    by_cases hempty : adj.realms ∩ realms = ∅
    · have hboth : adj.realms ∩ (realms ∩ realms') = ∅ := by
        rw [← hassoc, hempty, Finset.empty_inter]
      rw [List.map_cons, List.map_cons, List.filter_cons_of_neg (by simp [hempty]),
        List.filter_cons_of_neg (by simp [hboth])]
      exact ih
    · rw [List.map_cons, List.map_cons, List.filter_cons_of_pos (by simp [hempty]), List.map_cons,
        List.filter_cons, List.filter_cons, ih, hassoc]

/-- Two links in a row carry what one link with their common realms carries. -/
theorem Link.permits_permits (first second : Link) (lsa : Lsa) :
    (first.permits lsa).bind second.permits =
      ({ first with realms := first.realms ∩ second.realms } : Link).permits lsa := by
  unfold permits
  cases hb : lsa.body with
  | router adjs =>
    simp only
    rw [← filter_realms_twice adjs first.realms second.realms]
    generalize (adjs.map fun adj => ({ adj with realms := adj.realms ∩ first.realms } : Adjacency)).filter
      (fun adj => adj.realms ≠ ∅) = kept
    by_cases hkept : kept.isEmpty
    · obtain rfl := List.isEmpty_iff.mp hkept
      rfl
    · rw [if_neg hkept, Option.bind_some]
  | endpoint info =>
    simp only
    by_cases hreal : info.realm ∈ first.realms
    · rw [if_pos hreal, Option.bind_some, hb]
      simp [hreal]
    · rw [if_neg hreal, Option.bind_none, if_neg]
      exact fun hboth => hreal (Finset.mem_inter.mp hboth).1

/-- A link with the same realms carries a copy as it is. -/
theorem Link.permits_again {first second : Link} {lsa copy : Lsa} (hrealms : second.realms = first.realms)
    (h : first.permits lsa = some copy) : second.permits copy = some copy := by
  have htwo := Link.permits_permits first second lsa
  rw [h, Option.bind_some, hrealms, Finset.inter_self] at htwo
  exact htwo.trans h

/-- What comes out of a path is what its common realms leave. -/
theorem Lsa.copyOver_eq (lsa : Lsa) (link : Link) (path : List Link) :
    lsa.copyOver (link :: path) =
      ({ link with realms := commonRealms link path } : Link).permits lsa := by
  induction path generalizing link with
  | nil => simp [Lsa.copyOver, commonRealms]
  | cons next path ih =>
    have htwo : lsa.copyOver (link :: next :: path) =
        lsa.copyOver ({ link with realms := link.realms ∩ next.realms } :: path) := by
      unfold Lsa.copyOver
      simp only [List.foldlM_cons, Option.bind_eq_bind]
      rw [← Link.permits_permits, Option.bind_assoc]
    rw [htwo, ih]
    rfl

/-- Copies that came over paths with the same common realms are the same. -/
theorem Lsa.copyOver_congr (lsa : Lsa) {link link' : Link} {path path' : List Link}
    (h : commonRealms link path = commonRealms link' path') :
    lsa.copyOver (link :: path) = lsa.copyOver (link' :: path') := by
  rw [Lsa.copyOver_eq, Lsa.copyOver_eq, h]
  rfl

/-- A later copy of a version changes nothing. -/
theorem keepNewest_keepNewest (current : Option Lsa) {a b : Lsa} (hseq : b.seq = a.seq)
    (hdead : b.dead = a.dead) :
    keepNewest (keepNewest current a) b = keepNewest current a := by
  unfold keepNewest
  cases hd : a.dead with
  | true =>
    rw [if_pos rfl, if_pos (hdead.trans hd), hseq]
    cases current with
    | none => rfl
    | some c => by_cases hle : a.seq ≤ c.seq <;> simp [Option.filter, hle]
  | false =>
    rw [if_neg Bool.false_ne_true, if_neg (by simp [hdead, hd])]
    cases current with
    | none => simp [hseq]
    | some c =>
      by_cases hlt : c.seq < a.seq
      · simp [hlt, hseq]
      · simp [hlt, hseq]

/-- The first copy of a version decides what is kept. -/
theorem foldl_keepNewest_copies (current : Option Lsa) (a : Lsa) (l : List Lsa)
    (h : ∀ b ∈ l, b.seq = a.seq ∧ b.dead = a.dead) :
    l.foldl keepNewest (keepNewest current a) = keepNewest current a := by
  induction l with
  | nil => rfl
  | cons b l ih =>
    obtain ⟨hseq, hdead⟩ := h b List.mem_cons_self
    rw [List.foldl_cons, keepNewest_keepNewest current hseq hdead]
    exact ih fun b hb => h b (List.mem_cons_of_mem _ hb)

namespace LsDb

/-- A version would be news: it is alive, another node issued it, and what is stored of
its key is older. -/
def IsNews (db : LsDb) (version : Lsa) : Prop :=
  version.dead = false ∧ version.key.origin ≠ db.selfId ∧
    ∀ c, db.stored version.key = some c → c.seq < version.seq

/-- The arrivals are copies of a version that came over some paths of links. -/
def CopiesOf (version : Lsa) (arrivals : List Arrival) : Prop :=
  ∀ a ∈ arrivals, ∃ path, version.copyOver path = some a.lsa

/-- The stored body is the same for every order in which the arrivals are handled. -/
def OrderFree (db : LsDb) (key : LsaKey) (arrivals : List Arrival) : Prop :=
  ∀ l l' d d', l.Perm arrivals → l'.Perm arrivals → db.deliver l = some d →
    db.deliver l' = some d' → (d.stored key).map Lsa.body = (d'.stored key).map Lsa.body

/-- All arrivals carry the same body. -/
def SameBodies (arrivals : List Arrival) : Prop :=
  ∀ a ∈ arrivals, ∀ b ∈ arrivals, a.lsa.body = b.lsa.body

section Copies

variable {db d : LsDb} {version : Lsa} {arrivals l : List Arrival}

theorem CopiesOf.perm (h : CopiesOf version arrivals) (hp : l.Perm arrivals) :
    CopiesOf version l :=
  fun a ha => h a (hp.mem_iff.mp ha)

theorem CopiesOf.head {a : Arrival} (h : CopiesOf version (a :: l)) :
    a.lsa.key = version.key ∧ a.lsa.seq = version.seq ∧ a.lsa.dead = version.dead := by
  obtain ⟨path, hpath⟩ := h a List.mem_cons_self
  exact Lsa.copyOver_some hpath

theorem CopiesOf.key (h : CopiesOf version l) : ∀ a ∈ l, a.lsa.key = version.key := by
  intro a ha
  obtain ⟨path, hpath⟩ := h a ha
  exact (Lsa.copyOver_some hpath).1

/-- Arrivals leave an own record as it is. -/
theorem stored_own (ho : version.key.origin = db.selfId)
    (hd : db.deliver l = some d) : d.stored version.key = db.stored version.key := by
  have hkept := deliver_induction
    (P := fun e => e.selfId = db.selfId ∧ e.db.get version.key = db.db.get version.key)
    (by
      intro a _ e w e' w' hP hh
      obtain ⟨hself, _, hown⟩ := hh.frame
      exact ⟨hself.trans hP.1, (hown _ (ho.trans hP.1.symm)).trans hP.2⟩) hd ⟨rfl, rfl⟩
  rw [stored, hkept.2, stored]

/-- Of copies that follow each other only the first one counts. -/
theorem CopiesOf.stored_first {a : Arrival} (h : CopiesOf version (a :: l))
    (ho : version.key.origin ≠ db.selfId) (hd : db.deliver (a :: l) = some d) :
    d.stored version.key = keepNewest (db.stored version.key) a.lsa := by
  rw [stored_deliver h.key ho hd, List.map_cons, List.foldl_cons]
  apply foldl_keepNewest_copies
  intro b hb
  obtain ⟨b', hb', rfl⟩ := List.mem_map.mp hb
  obtain ⟨path, hpath⟩ := h b' (List.mem_cons_of_mem _ hb')
  obtain ⟨_, hseq, hdead⟩ := Lsa.copyOver_some hpath
  obtain ⟨_, hseq', hdead'⟩ := h.head
  exact ⟨hseq.trans hseq'.symm, hdead.trans hdead'.symm⟩

/-- The first copy of a version that is news is stored. -/
theorem CopiesOf.stored_news {a : Arrival} (h : CopiesOf version (a :: l)) (hn : db.IsNews version)
    (hd : db.deliver (a :: l) = some d) : d.stored version.key = some a.lsa := by
  obtain ⟨halive, ho, hold⟩ := hn
  obtain ⟨_, hseq, hdead⟩ := h.head
  rw [h.stored_first ho hd, keepNewest.eq_def, if_neg (by simp [hdead, halive])]
  cases hc : db.stored version.key with
  | none => rfl
  | some c =>
    have hlt := hold c hc
    simp only
    rw [if_pos (by omega)]

/-- A copy of a version that is not news leaves what the version itself would leave. -/
theorem CopiesOf.stored_old {a : Arrival} (h : CopiesOf version (a :: l))
    (hn : ¬ db.IsNews version) (hd : db.deliver (a :: l) = some d) :
    d.stored version.key = if version.key.origin = db.selfId then db.stored version.key
      else keepNewest (db.stored version.key) version := by
  by_cases ho : version.key.origin = db.selfId
  · rw [if_pos ho, stored_own ho hd]
  obtain ⟨_, hseq, hdead⟩ := h.head
  rw [if_neg ho, h.stored_first ho hd, keepNewest.eq_def, keepNewest.eq_def _ version, hseq, hdead]
  cases halive : version.dead with
  | true => rfl
  | false =>
    obtain ⟨c, hc, hle⟩ : ∃ c, db.stored version.key = some c ∧ version.seq ≤ c.seq := by
      by_contra hnot
      push Not at hnot
      exact hn ⟨halive, ho, hnot⟩
    rw [hc, if_neg Bool.false_ne_true, if_neg Bool.false_ne_true]
    simp only
    rw [if_neg (by omega), if_neg (by omega)]

/-- The order makes no difference if the first arrival makes none. -/
theorem orderFree_of_first {key : LsaKey}
    (h : ∀ a l d a' l' d', (a :: l).Perm arrivals → (a' :: l').Perm arrivals →
      db.deliver (a :: l) = some d → db.deliver (a' :: l') = some d' →
      (d.stored key).map Lsa.body = (d'.stored key).map Lsa.body) :
    db.OrderFree key arrivals := by
  intro l l' d d' hl hl' hd hd'
  have hsame := hl.trans hl'.symm
  cases l with
  | nil =>
    rw [List.nil_perm.mp hsame] at hd'
    obtain rfl := Option.some.inj (hd.symm.trans hd')
    rfl
  | cons a l =>
    cases l' with
    | nil => cases List.perm_nil.mp hsame
    | cons a' l' => exact h a l d a' l' d' hl hl' hd hd'

/-- Any arrival can be the first one. -/
theorem exists_first {a : Arrival} (ha : a ∈ arrivals) : ∃ l, (a :: l).Perm arrivals := by
  obtain ⟨before, after, rfl⟩ := List.append_of_mem ha
  exact ⟨before ++ after, List.perm_middle.symm⟩

/-- Where the order makes no difference for news, the copies have one body. -/
theorem CopiesOf.sameBodies (h : CopiesOf version arrivals) (hn : db.IsNews version)
    (hreach : db.LinksReach db.selfId) (hfree : db.OrderFree version.key arrivals) :
    SameBodies arrivals := by
  intro a ha b hb
  obtain ⟨la, hla⟩ := exists_first ha
  obtain ⟨lb, hlb⟩ := exists_first hb
  obtain ⟨d, hd⟩ := deliver_total hreach (a :: la)
  obtain ⟨d', hd'⟩ := deliver_total hreach (b :: lb)
  have heq := hfree _ _ _ _ hla hlb hd hd'
  rw [(h.perm hla).stored_news hn hd, (h.perm hlb).stored_news hn hd'] at heq
  exact Option.some.inj heq

end Copies

/-- Copies of one version that are handled one after the other in any order: a node
stores the first copy of a version that is news to it, so that the body it stores is
the same for every order exactly when the version is no news or its copies have one
body. -/
theorem first_copy_decides (db : LsDb) (version : Lsa) (arrivals : List Arrival)
    (hcopies : CopiesOf version arrivals) :
    (∀ a l d, (a :: l).Perm arrivals → db.deliver (a :: l) = some d → db.IsNews version →
      d.stored version.key = some a.lsa) ∧
    (¬ db.IsNews version ∨ SameBodies arrivals → db.OrderFree version.key arrivals) ∧
    (db.LinksReach db.selfId → (∀ l, l.Perm arrivals → ∃ d, db.deliver l = some d) ∧
      (db.OrderFree version.key arrivals → ¬ db.IsNews version ∨ SameBodies arrivals)) := by
  refine ⟨?_, ?_, ?_⟩
  · intro a l d hp hd hn
    exact (hcopies.perm hp).stored_news hn hd
  · intro hcond
    apply orderFree_of_first
    intro a l d a' l' d' hl hl' hd hd'
    by_cases hn : db.IsNews version
    · have hb := hcond.resolve_left (not_not_intro hn)
      rw [(hcopies.perm hl).stored_news hn hd, (hcopies.perm hl').stored_news hn hd',
        Option.map_some, Option.map_some, hb a (hl.mem_iff.mp List.mem_cons_self) a'
          (hl'.mem_iff.mp List.mem_cons_self)]
    · rw [(hcopies.perm hl).stored_old hn hd, (hcopies.perm hl').stored_old hn hd']
  · intro hreach
    refine ⟨fun l _ => deliver_total hreach l, fun hfree => ?_⟩
    by_cases hn : db.IsNews version
    · exact Or.inr (hcopies.sameBodies hn hreach hfree)
    · exact Or.inl hn

end LsDb

/-- A Router LSA of node 2 with one adjacency in the userspace realm and one in the
global realm. -/
def twoRealmVersion : Lsa :=
  ⟨⟨2, 2⟩, 1, false, .router [⟨7, 3, 0, {.userspace}⟩, ⟨8, 4, 0, {.global}⟩]⟩

/-- A link to node 2 that carries some realms. -/
def linkIn (realms : RealmList) (c : ConnectionId) : Link := ⟨c, 2, c, realms, 0⟩

/-- Node 1 with two links to node 2, each for one realm. -/
def twoRealmDb : LsDb :=
  ((((LsDb.new 1 0).addPeer (.idle 32) (linkIn {.userspace} 1) 0).1).addPeer (.idle 32)
    (linkIn {.global} 2) 0).1

/-- The copy with the adjacency to node 3, as the first link carries it. -/
def userspaceArrival : Arrival :=
  ⟨⟨⟨2, 2⟩, 1, false, .router [⟨7, 3, 0, {.userspace}⟩]⟩, 1, 0, .idle 32⟩

/-- The copy with the adjacency to node 4, as the second link carries it. -/
def globalArrival : Arrival :=
  ⟨⟨⟨2, 2⟩, 1, false, .router [⟨8, 4, 0, {.global}⟩]⟩, 2, 0, .idle 32⟩

/-- Two copies of one version that came over links of different realms: the order in
which they are handled decides which body is stored. -/
theorem realm_copies_differ :
    ¬ ∀ (db : LsDb) (version : Lsa) (adjs : List Adjacency) (arrivals : List Arrival),
      version.body = .router adjs → LsDb.CopiesOf version arrivals →
      db.OrderFree version.key arrivals := by
  intro h
  have hcopies : LsDb.CopiesOf twoRealmVersion [userspaceArrival, globalArrival] := by
    intro a ha
    rcases List.mem_pair.mp ha with rfl | rfl
    · exact ⟨[linkIn {.userspace} 1], by decide⟩
    · exact ⟨[linkIn {.global} 2], by decide⟩
  have hfirst : (twoRealmDb.deliver [userspaceArrival, globalArrival]).map
      (fun d => (d.stored ⟨2, 2⟩).map Lsa.body) = some (some userspaceArrival.lsa.body) := by
    decide +kernel
  have hsecond : (twoRealmDb.deliver [globalArrival, userspaceArrival]).map
      (fun d => (d.stored ⟨2, 2⟩).map Lsa.body) = some (some globalArrival.lsa.body) := by
    decide +kernel
  obtain ⟨d, hd, hbody⟩ := Option.map_eq_some_iff.mp hfirst
  obtain ⟨d', hd', hbody'⟩ := Option.map_eq_some_iff.mp hsecond
  have heq := h twoRealmDb twoRealmVersion _ _ rfl hcopies _ _ _ _ (List.Perm.refl _)
    (List.Perm.swap _ _ _) hd hd'
  have hne : userspaceArrival.lsa.body ≠ globalArrival.lsa.body := by decide
  exact hne (Option.some.inj (hbody.symm.trans (heq.trans hbody')))

/-- A second copy that came over one more link with both realms is the same copy. -/
theorem longer_path_agrees :
    LsDb.CopiesOf twoRealmVersion [userspaceArrival, { userspaceArrival with connectionId := 3 }] ∧
      twoRealmDb.OrderFree twoRealmVersion.key
        [userspaceArrival, { userspaceArrival with connectionId := 3 }] := by
  have hdirect : twoRealmVersion.copyOver [linkIn {.userspace} 1] = some userspaceArrival.lsa := by
    decide
  have hlonger : twoRealmVersion.copyOver [linkIn {.userspace, .global} 3, linkIn {.userspace} 1] =
      some userspaceArrival.lsa := by
    rw [← hdirect]
    exact Lsa.copyOver_congr _ (by decide)
  have hcopies : LsDb.CopiesOf twoRealmVersion
      [userspaceArrival, { userspaceArrival with connectionId := 3 }] := by
    intro a ha
    rcases List.mem_pair.mp ha with rfl | rfl
    · exact ⟨_, hdirect⟩
    · exact ⟨_, hlonger⟩
  refine ⟨hcopies, (LsDb.first_copy_decides twoRealmDb _ _ hcopies).2.1 (Or.inr ?_)⟩
  intro a ha b hb
  rcases List.mem_pair.mp ha with rfl | rfl <;> rcases List.mem_pair.mp hb with rfl | rfl <;> rfl

end Anybus
