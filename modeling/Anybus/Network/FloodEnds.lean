import Anybus.Network.Basic
import Mathlib.Data.Finset.Prod
import Mathlib.Data.Prod.Lex
import Mathlib.Order.WellFounded

/-!
# Whether flooding ends

Each delivery pays with a measure of three parts. A withdrawal that a node accepts
uses up one of the finitely many numbers in play for good; between withdrawals the
stored numbers only grow; and a message that is not flooded on leaves at most an
acknowledgement. The first part can be refilled in one way only: a node that has
forgotten a withdrawal takes an older version as news.
-/

namespace Anybus

/-- Whether a node accepts a withdrawal: it is newer than the record it has. -/
def LsDb.Buries (db : LsDb) (lsa : Lsa) : Prop :=
  lsa.key.origin ≠ db.selfId ∧ lsa.dead = true ∧
    (db.db.get lsa.key).any (fun r => decide (r.lsa.seq < lsa.seq)) = true

instance (db : LsDb) (lsa : Lsa) : Decidable (db.Buries lsa) :=
  inferInstanceAs (Decidable (_ ∧ _ ∧ _))

/-- The number of the last withdrawal of a key that each node accepted. -/
abbrev Marks (ι : Type*) := ι → LsaKey → Nat

/-- What a message weighs: an LSA leaves an acknowledgement, nothing else leaves anything. -/
def NodeMessage.weight : NodeMessage → Nat
  | .lsa _ => 2
  | .lsaAck _ _ => 1
  | .wirePacket _ => 1

namespace Net

variable {ι : Type*}

/-- A node takes an LSA of a key it does not know as news, although it has accepted a
newer withdrawal of that key before. -/
def Revives (s : Net ι) (marks : Marks ι) (e : Envelope ι) : Prop :=
  ∃ lsa, e.message = .lsa lsa ∧ lsa.dead = false ∧ lsa.key.origin ≠ (s.db e.dest).selfId ∧
    (s.db e.dest).db.get lsa.key = none ∧ lsa.seq < marks e.dest lsa.key

/-- The weight of all messages on their way. -/
def load (s : Net ι) : Nat := (s.flight.map fun e => e.message.weight).sum

/-- The keys and numbers of the LSAs on their way. -/
def versions (s : Net ι) : Finset (LsaKey × Nat) :=
  (s.flight.filterMap fun e => match e.message with
    | .lsa lsa => some (lsa.key, lsa.seq)
    | _ => none).toFinset

theorem mem_versions {s : Net ι} {e : Envelope ι} {lsa : Lsa} (he : e ∈ s.flight)
    (hm : e.message = .lsa lsa) : (lsa.key, lsa.seq) ∈ s.versions := by
  simp only [versions, List.mem_toFinset, List.mem_filterMap]
  exact ⟨e, he, by rw [hm]⟩

section Measure

variable [Fintype ι] (T : Finset (LsaKey × Nat))

/-- The versions a node could still bury. -/
def unburied (marks : Marks ι) : Finset (ι × LsaKey × Nat) :=
  (Finset.univ ×ˢ T).filter fun x => marks x.1 x.2.1 < x.2.2

/-- The versions that would be news to a node. -/
def unheard (s : Net ι) : Finset (ι × LsaKey × Nat) :=
  (Finset.univ ×ˢ T).filter fun x =>
    ((s.db x.1).db.get x.2.1).all fun r => decide (r.lsa.seq < x.2.2)

variable {T}

theorem mem_unburied {marks : Marks ι} {i : ι} {k : LsaKey} {q : Nat} :
    (i, k, q) ∈ unburied T marks ↔ (k, q) ∈ T ∧ marks i k < q := by
  simp [unburied]

theorem mem_unheard {s : Net ι} {i : ι} {k : LsaKey} {q : Nat} :
    (i, k, q) ∈ unheard T s ↔ (k, q) ∈ T ∧ ∀ r, (s.db i).db.get k = some r → r.lsa.seq < q := by
  simp [unheard, Option.all_eq_true]

end Measure

/-- What holds along a run: only known versions are on their way, and no record is
older than the last withdrawal its node accepted. -/
structure FloodInv (T : Finset (LsaKey × Nat)) (s : Net ι) (marks : Marks ι) : Prop where
  flight : ∀ e ∈ s.flight, ∀ lsa, e.message = .lsa lsa → (lsa.key, lsa.seq) ∈ T
  above : ∀ i k r, (s.db i).db.get k = some r → marks i k ≤ r.lsa.seq

theorem sent_of_drained {wire : Wiring ι} {i : ι} {db : LsDb} {w : Wires} (hw : w.Drained) :
    sent wire i db w = [] := by
  unfold Wires.Drained at hw
  simp [sent, hw]

/-- An acknowledgement is queued at most once. -/
theorem sum_weight_sent_ack {wire : Wiring ι} {i : ι} {db db' : LsDb} {w : Wires} (hw : w.Drained)
    (c : ConnectionId) (key : LsaKey) (seq : Nat) :
    ((sent wire i db' (db.sendAck w c key seq)).map fun e => e.message.weight).sum ≤ 1 := by
  have hnodup : db'.txs.Nodup := List.nodup_dedup _
  unfold sent
  revert hnodup
  induction db'.txs with
  | nil => simp
  | cons t l ih =>
    intro hnodup
    obtain ⟨ht, hl⟩ := List.nodup_cons.mp hnodup
    rw [List.flatMap_cons, List.map_append, List.sum_append]
    have hq := hw t
    by_cases htx : (db.links.get c).map Link.tx = some t
    · -- The link's own channel: no other channel in the rest of the list takes anything.
      have hrest : l.flatMap (fun t => ((db.sendAck w c key seq).node t).queue.map
          fun m => (⟨(wire i t).1, (wire i t).2, m⟩ : Envelope ι)) = [] := by
        rw [List.flatMap_eq_nil_iff]
        intro u hu
        have hne : (db.links.get c).map Link.tx ≠ some u := by
          rw [htx]
          rintro ⟨⟩
          exact ht hu
        rw [LsDb.sendAck_node, if_neg hne, Chan.offerAll_nil, hw u, List.map_nil]
      rw [hrest, LsDb.sendAck_node, if_pos htx, Chan.offerAll_queue, hq]
      split
      · simp
      · cases (w.node t).capacity with
        | zero => simp
        | succ n => simp [NodeMessage.weight]
    · rw [LsDb.sendAck_node, if_neg htx, Chan.offerAll_nil, hq]
      simpa using ih hl

variable [DecidableEq ι]

/-- The marks after a message was delivered. -/
def mark (s : Net ι) (marks : Marks ι) (e : Envelope ι) : Marks ι :=
  match e.message with
  | .lsa lsa =>
    if (s.db e.dest).Buries lsa then
      Function.update marks e.dest (Function.update (marks e.dest) lsa.key lsa.seq)
    else marks
  | _ => marks

/-- The marks along a run. -/
def marksAt (s : ℕ → Net ι) (e : ℕ → Envelope ι) : ℕ → Marks ι
  | 0 => fun _ _ => 0
  | n + 1 => (s n).mark (marksAt s e n) (e n)

/-- What a delivery does: an LSA is handled by its node, anything else only leaves. -/
theorem Delivers.cases {wire : Wiring ι} {e : Envelope ι} {s s' : Net ι}
    (h : Delivers wire e s s') :
    (∃ lsa w now db' w', e.message = .lsa lsa ∧ w.Drained ∧
      LsDb.Handled (s.db e.dest) ((s.db e.dest).sendAck w e.connectionId lsa.key lsa.seq) lsa
        e.connectionId now db' w' ∧
      s'.flight = s.flight.erase e ++ sent wire e.dest db' w' ∧
      (∀ i, i ≠ e.dest → s'.db i = s.db i) ∧ ∀ k, (s'.db e.dest).db.get k = db'.db.get k) ∨
    ((∀ lsa, e.message ≠ .lsa lsa) ∧ s'.flight = s.flight.erase e ∧
      ∀ i k, (s'.db i).db.get k = (s.db i).db.get k) := by
  obtain ⟨_, w, now, s₁, hw, hdel, db', hset, rfl⟩ := h
  obtain ⟨_, hrec, _⟩ := hset.frame
  unfold deliver at hdel
  cases hm : e.message with
  | lsa lsa =>
    simp only [hm, Option.map_eq_some_iff, Prod.exists] at hdel
    obtain ⟨db₁, w₁, hh, rfl⟩ := hdel
    refine Or.inl ⟨lsa, w, now, db₁, w₁, rfl, hw, LsDb.handleLsa_handled hh, rfl, fun i hi => ?_,
      fun k => ?_⟩
    · simp [post, without, hi]
    · simpa [post, without] using hrec k
  | lsaAck key seq =>
    simp only [hm, Option.some.injEq] at hdel
    subst hdel
    refine Or.inr ⟨by simp, ?_, fun i k => ?_⟩
    · simp [post, without, sent_of_drained hw]
    · by_cases hi : i = e.dest
      · subst hi
        have hack : ((s.db e.dest).handleAck e.connectionId key seq).db = (s.db e.dest).db := by
          unfold LsDb.handleAck
          split
          · split <;> rfl
          · rfl
        simpa [post, without, hack] using hrec k
      · simp [post, without, hi]
  | wirePacket p =>
    simp only [hm, Option.some.injEq] at hdel
    subst hdel
    refine Or.inr ⟨by simp, rfl, fun i k => ?_⟩
    by_cases hi : i = e.dest
    · subst hi
      simpa [without] using hrec k
    · simp [without, hi]

/-- Everything a delivery puts on its way carries the version that was delivered. -/
theorem FloodInv.flight_step {T : Finset (LsaKey × Nat)} {wire : Wiring ι} {e : Envelope ι}
    {s s' : Net ι} {marks : Marks ι} (hi : FloodInv T s marks) (h : Delivers wire e s s') :
    ∀ e' ∈ s'.flight, ∀ lsa, e'.message = .lsa lsa → (lsa.key, lsa.seq) ∈ T := by
  intro e' he' l hl
  rcases h.cases with ⟨lsa, w, now, db', w', hm, hw, hh, hflight, _⟩ | ⟨_, hflight, _⟩
  · rw [hflight] at he'
    rcases List.mem_append.mp he' with he' | he'
    · exact hi.flight e' (List.mem_of_mem_erase he') l hl
    · obtain ⟨c, link, _, hq, _⟩ := mem_sent.mp he'
      rcases hh.mem_queue hq with hq | ⟨l', hl', hk, hs⟩
      · rw [LsDb.sendAck_node] at hq
        rcases Chan.mem_of_mem_offerAll hq with hq | hq
        · rw [hw] at hq
          cases hq
        · rw [hl] at hq
          split at hq
          · simp at hq
          · cases hq
      · obtain rfl : l = l' := by simpa [hl] using hl'
        rw [hk, hs]
        exact hi.flight e h.1 lsa hm
  · rw [hflight] at he'
    exact hi.flight e' (List.mem_of_mem_erase he') l hl

section Step

variable [Fintype ι] {T : Finset (LsaKey × Nat)} {wire : Wiring ι} {e : Envelope ι} {s s' : Net ι}
  {marks : Marks ι}

/-- The measure of a state of a run. -/
def measure (T : Finset (LsaKey × Nat)) (s : Net ι) (marks : Marks ι) : ℕ ×ₗ ℕ ×ₗ ℕ :=
  toLex ((unburied T marks).card, toLex ((unheard T s).card, s.load))

omit [DecidableEq ι] in
/-- A delivery that changes no record pays with a message. -/
theorem measure_lt_of_load (hrec : ∀ i k, (s'.db i).db.get k = (s.db i).db.get k)
    (hload : s'.load < s.load) : measure T s' marks < measure T s marks := by
  have hsame : unheard T s' = unheard T s := by
    ext ⟨i, k, q⟩
    rw [mem_unheard, mem_unheard, hrec]
  rw [measure, measure, Prod.Lex.toLex_lt_toLex]
  refine Or.inr ⟨rfl, Prod.Lex.toLex_lt_toLex.mpr (Or.inr ⟨?_, hload⟩)⟩
  rw [hsame]

omit [DecidableEq ι] in
/-- A delivery that stores a version pays with a version that is news no more. -/
theorem measure_lt_of_stored {i : ι} {k : LsaKey} {q : Nat} (hT : (k, q) ∈ T)
    (hnew : ∀ r, (s.db i).db.get k = some r → r.lsa.seq < q)
    (hrec : ∀ j k' r, (s.db j).db.get k' = some r →
      ∃ r', (s'.db j).db.get k' = some r' ∧ r.lsa.seq ≤ r'.lsa.seq)
    (hstored : ∃ r, (s'.db i).db.get k = some r ∧ q ≤ r.lsa.seq) :
    measure T s' marks < measure T s marks := by
  have hlt : unheard T s' ⊂ unheard T s := by
    refine (Finset.ssubset_iff_of_subset ?_).mpr ⟨(i, k, q), mem_unheard.mpr ⟨hT, hnew⟩, ?_⟩
    · rintro ⟨j, k', q'⟩ hmem
      obtain ⟨hT', hall⟩ := mem_unheard.mp hmem
      refine mem_unheard.mpr ⟨hT', fun r hr => ?_⟩
      obtain ⟨r', hr', hle⟩ := hrec j k' r hr
      exact hle.trans_lt (hall r' hr')
    · intro hmem
      obtain ⟨r, hr, hle⟩ := hstored
      exact Nat.not_lt.mpr hle ((mem_unheard.mp hmem).2 r hr)
  rw [measure, measure, Prod.Lex.toLex_lt_toLex]
  exact Or.inr ⟨rfl, Prod.Lex.toLex_lt_toLex.mpr (Or.inl (Finset.card_lt_card hlt))⟩

/-- A delivery that buries a version pays with the number it marks. -/
theorem measure_lt_of_buried {i : ι} {k : LsaKey} {q : Nat} (hT : (k, q) ∈ T)
    (hlt : marks i k < q) :
    measure T s' (Function.update marks i (Function.update (marks i) k q)) < measure T s marks := by
  have hle : ∀ j k', marks j k' ≤ Function.update marks i (Function.update (marks i) k q) j k' := by
    intro j k'
    by_cases hj : j = i
    · subst hj
      by_cases hk : k' = k
      · subst hk
        simpa using hlt.le
      · simp [hk]
    · simp [hj]
  have hss : unburied T (Function.update marks i (Function.update (marks i) k q)) ⊂
      unburied T marks := by
    refine (Finset.ssubset_iff_of_subset ?_).mpr ⟨(i, k, q), mem_unburied.mpr ⟨hT, hlt⟩, ?_⟩
    · rintro ⟨j, k', q'⟩ hmem
      obtain ⟨hT', hlt'⟩ := mem_unburied.mp hmem
      exact mem_unburied.mpr ⟨hT', (hle j k').trans_lt hlt'⟩
    · intro hmem
      simpa using (mem_unburied.mp hmem).2
  rw [measure, measure, Prod.Lex.toLex_lt_toLex]
  exact Or.inl (Finset.card_lt_card hss)

omit [Fintype ι] in
/-- Taking a message off its way and adding light ones makes the load smaller. -/
theorem load_lt (out : List (Envelope ι)) (he : e ∈ s.flight)
    (hflight : s'.flight = s.flight.erase e ++ out)
    (hout : (out.map fun e => e.message.weight).sum < e.message.weight) : s'.load < s.load := by
  have hperm := (List.perm_cons_erase he).map fun e => e.message.weight
  have hsum := hperm.sum_eq
  rw [List.map_cons, List.sum_cons] at hsum
  unfold load
  rw [hflight, hsum, List.map_append, List.sum_append]
  omega

/-- One delivery that revives nothing keeps the invariant and makes the measure smaller. -/
theorem FloodInv.step (hi : FloodInv T s marks) (h : Delivers wire e s s')
    (hrev : ¬ s.Revives marks e) :
    FloodInv T s' (s.mark marks e) ∧ measure T s' (s.mark marks e) < measure T s marks := by
  have hfl := hi.flight_step h
  rcases h.cases with ⟨lsa, w, now, db', w', hm, hw, hh, hflight, hother, hrec⟩ |
      ⟨hm, hflight, hrec⟩
  · have hT := hi.flight e h.1 lsa hm
    have hmark : s.mark marks e = if (s.db e.dest).Buries lsa then
        Function.update marks e.dest (Function.update (marks e.dest) lsa.key lsa.seq) else marks := by
      simp only [mark, hm]
    -- An LSA that is not flooded on changes no record and leaves an acknowledgement.
    have hquiet : ¬ (s.db e.dest).Buries lsa → (∀ k, db'.db.get k = (s.db e.dest).db.get k) →
        w' = (s.db e.dest).sendAck w e.connectionId lsa.key lsa.seq →
        FloodInv T s' (s.mark marks e) ∧ measure T s' (s.mark marks e) < measure T s marks := by
      intro hbury hsame hw'
      have hall : ∀ i k, (s'.db i).db.get k = (s.db i).db.get k := by
        intro i k
        by_cases hd : i = e.dest
        · rw [hd, hrec, hsame]
        · rw [hother i hd]
      rw [hmark, if_neg hbury]
      refine ⟨⟨hfl, fun i k r hr => hi.above i k r (hall i k ▸ hr)⟩, measure_lt_of_load hall ?_⟩
      refine load_lt _ h.1 hflight ?_
      rw [hm, hw']
      exact Nat.lt_succ_of_le (sum_weight_sent_ack hw _ _ _)
    cases hh with
    | ignored hig =>
      refine hquiet ?_ (fun _ => rfl) rfl
      rintro ⟨ho, _, hnew⟩
      obtain ⟨r, hr, hle⟩ := hig.resolve_left ho
      rw [hr, Option.any_some, decide_eq_true_eq] at hnew
      omega
    | unknownDeath _ _ hn =>
      refine hquiet ?_ (fun _ => rfl) rfl
      rintro ⟨_, _, hnew⟩
      rw [hn] at hnew
      cases hnew
    | died ho hd r hr hlt =>
      have hbury : (s.db e.dest).Buries lsa := ⟨ho, hd, by rw [hr]; simpa using hlt⟩
      rw [hmark, if_pos hbury]
      have hmlt : marks e.dest lsa.key < lsa.seq := (hi.above _ _ r hr).trans_lt hlt
      refine ⟨⟨hfl, fun i k r' hr' => ?_⟩, measure_lt_of_buried hT hmlt⟩
      by_cases hd : i = e.dest
      · subst hd
        rw [hrec] at hr'
        obtain ⟨hk, hold⟩ := LsDb.get_withoutDead hr'
        simpa [hk] using hi.above _ k r' hold
      · rw [hother i hd] at hr'
        simpa [hd] using hi.above i k r' hr'
    | stored ho hd hnew =>
      have hbury : ¬ (s.db e.dest).Buries lsa := by
        rintro ⟨_, hdead, _⟩
        rw [hd] at hdead
        cases hdead
      rw [hmark, if_neg hbury]
      have hget : ∀ k, (s'.db e.dest).db.get k =
          if k = lsa.key then some ⟨lsa, now⟩ else (s.db e.dest).db.get k := fun k => by
        rw [hrec, HashMap.get_insert]
      have habove : marks e.dest lsa.key ≤ lsa.seq := by
        cases hr : (s.db e.dest).db.get lsa.key with
        | none => exact Nat.le_of_not_lt fun hlt => hrev ⟨lsa, hm, hd, ho, hr, hlt⟩
        | some r => exact (hi.above _ _ r hr).trans (hnew r hr).le
      refine ⟨⟨hfl, fun i k r hr => ?_⟩, measure_lt_of_stored hT hnew (fun j k r hr => ?_) ?_⟩
      · by_cases hdest : i = e.dest
        · subst hdest
          rw [hget] at hr
          by_cases hk : k = lsa.key
          · rw [if_pos hk, Option.some.injEq] at hr
            subst hr hk
            exact habove
          · rw [if_neg hk] at hr
            exact hi.above _ k r hr
        · rw [hother i hdest] at hr
          exact hi.above i k r hr
      · by_cases hdest : j = e.dest
        · subst hdest
          rw [hget]
          by_cases hk : k = lsa.key
          · subst hk
            exact ⟨_, if_pos rfl, (hnew r hr).le⟩
          · exact ⟨r, by rw [if_neg hk, hr], le_rfl⟩
        · rw [hother j hdest]
          exact ⟨r, hr, le_rfl⟩
      · exact ⟨_, by rw [hget, if_pos rfl], le_rfl⟩
  · have hmark : s.mark marks e = marks := by
      unfold mark
      split
      · exact absurd ‹_› (hm _)
      · rfl
    rw [hmark]
    refine ⟨⟨hfl, fun i k r hr => hi.above i k r (hrec i k ▸ hr)⟩, measure_lt_of_load hrec ?_⟩
    refine load_lt [] h.1 (by rw [hflight, List.append_nil]) ?_
    cases e.message <;> exact Nat.succ_pos _

end Step

/-- Whatever is on its way, and in whatever order it is delivered: no endless sequence
of deliveries goes without a node that revives what it has accepted as withdrawn. -/
theorem flooding_ends [Fintype ι] (wire : Wiring ι) :
    ¬ ∃ (s : ℕ → Net ι) (e : ℕ → Envelope ι), (∀ n, Delivers wire (e n) (s n) (s (n + 1))) ∧
      ∀ n, ¬ (s n).Revives (marksAt s e n) (e n) := by
  rintro ⟨s, e, hdel, hrev⟩
  have hinv : ∀ n, FloodInv (s 0).versions (s n) (marksAt s e n) := by
    intro n
    induction n with
    | zero => exact ⟨fun e he lsa hm => mem_versions he hm, fun _ _ _ _ => Nat.zero_le _⟩
    | succ n ih => exact (ih.step (hdel n) (hrev n)).1
  obtain ⟨n, hn⟩ := WellFounded.not_rel_apply_succ (r := (· < ·))
    fun n => measure (s 0).versions (s n) (marksAt s e n)
  exact hn ((hinv n).step (hdel n) (hrev n)).2

end Net

/-- Three nodes in a ring: connection 1 leads to the next node, connection 2 back. -/
def ringWire : Wiring (Fin 3) := fun i t => if t = 1 then (i + 1, 2) else (i + 2, 1)

def ringId (i : Fin 3) : NodeId := ⟨i.val + 1, threeNodes_succ_lt i⟩

/-- The link of a node of the ring over one of its connections. -/
def ringLink (i : Fin 3) (c : ConnectionId) : Link :=
  ⟨c, ringId (ringWire i c).1, c, {.global}, ⟨1, Cost.one_le_max⟩⟩

/-- A version of an endpoint of node 9, which is not in the ring. -/
def ringVersion (seq : Nat) (dead : Bool) : Lsa :=
  ⟨⟨9, 5⟩, seq, dead, .endpoint ⟨.unicast, .global, 0⟩⟩

/-- The ring when all links have just come up, with an advertisement of node 9 and then
its withdrawal on their way to the first node. -/
def ringNet : Net (Fin 3) :=
  let s := [(0, 1), (0, 2), (1, 1), (1, 2), (2, 1), (2, 2)].foldl
    (fun s x => Net.attach ringWire s x.1 (ringLink x.1 x.2)) ⟨fun i => LsDb.new (ringId i) 0, []⟩
  { s with flight := s.flight ++ [⟨0, 1, .lsa (ringVersion 1 false)⟩, ⟨0, 1, .lsa (ringVersion 2 true)⟩] }

/-- After the links have come up, one lap takes eighteen deliveries. -/
theorem ringNet_periodic :
    ((Net.advanceBy ringWire 43 ringNet).bind fun s =>
      (Net.advanceBy ringWire 18 s).map fun s' => decide (s' = s)) = some true := by
  decide +kernel

/-- In the ring the advertisement and its withdrawal follow each other for ever: each
node stores the one, removes it with the other, and forgets both. -/
theorem flooding_never_ends :
    ¬ ∀ wire : Wiring (Fin 3), ¬ ∃ (s : ℕ → Net (Fin 3)) (e : ℕ → Envelope (Fin 3)),
      ∀ n, Net.Delivers wire (e n) (s n) (s (n + 1)) := by
  intro h
  obtain ⟨lap, hlap, hback⟩ := Option.bind_eq_some_iff.mp ringNet_periodic
  obtain ⟨lap', hlap', heq⟩ := Option.map_eq_some_iff.mp hback
  rw [of_decide_eq_true heq] at hlap'
  have hlaps : ∀ n, Net.advanceBy ringWire (43 + 18 * n) ringNet = some lap := by
    intro n
    induction n with
    | zero => exact hlap
    | succ n ih => rw [Nat.mul_succ, ← Nat.add_assoc, Net.advanceBy_add, ih, Option.bind_some, hlap']
  have hsome : ∀ n, ∃ s, Net.advanceBy ringWire n ringNet = some s := by
    intro n
    have hlater := hlaps n
    rw [show 43 + 18 * n = n + (43 + 17 * n) by omega, Net.advanceBy_add] at hlater
    obtain ⟨s, hs, _⟩ := Option.bind_eq_some_iff.mp hlater
    exact ⟨s, hs⟩
  choose s hs using hsome
  have hstep : ∀ n, ∃ e, Net.Delivers ringWire e (s n) (s (n + 1)) := by
    intro n
    have hnext := hs (n + 1)
    rw [Net.advanceBy, hs n, Option.bind_some] at hnext
    obtain ⟨e, _, hdel⟩ := Net.advance_delivers hnext
    exact ⟨e, hdel⟩
  choose e he using hstep
  exact h ringWire ⟨s, e, he⟩

end Anybus
