import Anybus.Db.Queues

/-!
# Unacknowledged LSAs

A database notes for each connection and key the number of the last LSA it queued, until
an acknowledgement of that number or a later one comes in. The note follows the queues
and the acknowledgements exactly. Giving up a link does not erase its notes, so the notes
are those of live links as long as no link is given up with one.
-/

namespace Anybus

/-- What can happen to a key on a connection. -/
inductive Transfer where
  | queued (seq : ℕ)
  | acked (seq : ℕ)
  deriving DecidableEq

namespace Transfer

/-- The last number queued, if no acknowledgement of it or a later one came since. -/
def Outstanding (history : List Transfer) (seq : ℕ) : Prop :=
  ∃ before after, history = before ++ queued seq :: after ∧ (∀ s, queued s ∉ after) ∧
    ∀ s, seq ≤ s → acked s ∉ after

/-- What one transfer makes of the outstanding number. -/
def next (pending : Option ℕ) : Transfer → Option ℕ
  | queued seq => some seq
  | acked seq => pending.filter fun val => seq < val

/-- The outstanding number, from the transfers in turn. -/
def outstanding (history : List Transfer) : Option ℕ := history.foldl next none

theorem outstanding_append (history : List Transfer) (t : Transfer) :
    outstanding (history ++ [t]) = next (outstanding history) t := by
  rw [outstanding, List.foldl_append, List.foldl_cons, List.foldl_nil, ← outstanding]

/-- Only the last of several queued numbers counts. -/
theorem foldl_next_queued (seqs : List ℕ) (pending : Option ℕ) :
    (seqs.map queued).foldl next pending = seqs.getLast?.or pending := by
  induction seqs using List.reverseRecOn with
  | nil => rfl
  | append_singleton seqs s _ => simp [next]

theorem outstanding_eq_some_iff {history : List Transfer} {seq : ℕ} :
    outstanding history = some seq ↔ Outstanding history seq := by
  induction history using List.reverseRecOn with
  | nil =>
    constructor
    · intro h
      cases h
    · rintro ⟨before, after, h, -⟩
      simp at h
  | append_singleton history t ih =>
    have hlast : ∀ {before after : List Transfer},
        history ++ [t] = before ++ queued seq :: after → after ≠ [] →
        ∃ after', after = after' ++ [t] ∧ history = before ++ queued seq :: after' := by
      intro before after h hne
      obtain ⟨after', t', rfl⟩ := (List.eq_nil_or_concat after).resolve_left hne
      rw [List.concat_eq_append] at h ⊢
      rw [← List.cons_append, ← List.append_assoc] at h
      obtain ⟨h₁, h₂⟩ := List.append_inj' h rfl
      obtain rfl := List.singleton_inj.mp h₂
      exact ⟨after', rfl, h₁⟩
    rw [outstanding_append]
    cases t with
    | queued s =>
      constructor
      · intro h
        obtain rfl := Option.some.inj h
        exact ⟨history, [], rfl, by simp, by simp⟩
      · rintro ⟨before, after, h, hq, -⟩
        by_cases hne : after = []
        · subst hne
          obtain ⟨-, h₂⟩ := List.append_inj' h rfl
          rw [next, (queued.inj (List.singleton_inj.mp h₂))]
        · obtain ⟨after', rfl, -⟩ := hlast h hne
          exact absurd (List.mem_append_right _ (List.mem_singleton_self _)) (hq s)
    | acked s =>
      constructor
      · intro h
        obtain ⟨hold, hlt⟩ := Option.filter_eq_some_iff.mp h
        obtain ⟨before, after, rfl, hq, ha⟩ := ih.mp hold
        refine ⟨before, after ++ [acked s], by simp, fun s' hs' => ?_, fun s' hle hs' => ?_⟩
        · rcases List.mem_append.mp hs' with hs' | hs'
          · exact hq s' hs'
          · simp at hs'
        · rcases List.mem_append.mp hs' with hs' | hs'
          · exact ha s' hle hs'
          · obtain rfl := acked.inj (List.mem_singleton.mp hs')
            exact absurd hle (by simpa using hlt)
      · rintro ⟨before, after, h, hq, ha⟩
        by_cases hne : after = []
        · subst hne
          obtain ⟨-, h₂⟩ := List.append_inj' h rfl
          cases List.singleton_inj.mp h₂
        · obtain ⟨after', rfl, rfl⟩ := hlast h hne
          have hold := ih.mpr ⟨before, after', rfl, fun s' hs' => hq s' (List.mem_append_left _ hs'),
            fun s' hle hs' => ha s' hle (List.mem_append_left _ hs')⟩
          have hlt : s < seq := by
            by_contra hge
            exact ha s (Nat.not_lt.mp hge) (List.mem_append_right _ (List.mem_singleton_self _))
          rw [next, hold]
          simp [hlt]

end Transfer

/-- A link takes an LSA: its realms leave something of it, and its channel is open and has
room. -/
def Link.Takes (link : Link) (w : Wires) (lsa : Lsa) : Prop :=
  (link.permits lsa).isSome ∧ (w.node link.tx).closed = false ∧
    (w.node link.tx).queue.length < (w.node link.tx).capacity

/-- The LSAs among some messages. -/
def lsasOf (messages : List NodeMessage) : List Lsa :=
  messages.filterMap fun
    | .lsa lsa => some lsa
    | _ => none

theorem mem_lsasOf {messages : List NodeMessage} {lsa : Lsa} : lsa ∈ lsasOf messages ↔ .lsa lsa ∈ messages := by
  rw [lsasOf, List.mem_filterMap]
  constructor
  · rintro ⟨m, hm, heq⟩
    cases m with
    | lsa l => rwa [← Option.some.inj heq]
    | wirePacket p => cases heq
    | lsaAck key seq => cases heq
  · intro hm
    exact ⟨.lsa lsa, hm, rfl⟩

/-- The LSAs an operation has put into a channel. -/
def newLsas (w w' : Wires) (t : Tx) : List Lsa :=
  lsasOf ((w'.node t).queue.drop (w.node t).queue.length)

/-- The numbers of the LSAs of a key. -/
def seqsOf (k : LsaKey) (lsas : List Lsa) : List ℕ :=
  (lsas.filter fun lsa => lsa.key = k).map Lsa.seq

namespace LsDb

/-- The link of a connection after an operation, or else before it. -/
def upLink (db db' : LsDb) (c : ConnectionId) : Option Link := (db'.links.get c).or (db.links.get c)

/-- What an operation does to a key on a connection. -/
def transfers (db db' : LsDb) (w w' : Wires) (op : Op) (c : ConnectionId) (k : LsaKey) :
    List Transfer :=
  match op with
  | .handleAck sender key seq => if sender = c ∧ key = k then [.acked seq] else []
  | _ =>
    match upLink db db' c with
    | some link => (seqsOf k (newLsas w w' link.tx)).map .queued
    | none => []

/-- The states a fresh database can reach, with all transfers so far, when every operation
satisfies a side condition on the state, the channels and the time it meets. -/
inductive Traced (allowed : LsDb → Wires → Instant → Op → Prop) (selfId : NodeId) :
    LsDb → (ConnectionId → LsaKey → List Transfer) → Prop where
  | new (now : Instant) : Traced allowed selfId (LsDb.new selfId now) fun _ _ => []
  | rehash {db db' : LsDb} {history : ConnectionId → LsaKey → List Transfer} :
      Traced allowed selfId db history → Rehash db db' → Traced allowed selfId db' history
  | step {db db' : LsDb} {history : ConnectionId → LsaKey → List Transfer} (w : Wires) {w' : Wires}
      (now : Instant) (op : Op) :
      Traced allowed selfId db history → allowed db w now op → db.step w now op = some (db', w') →
      Traced allowed selfId db' fun c k => history c k ++ transfers db db' w w' op c k

/-- A new peer brings a channel of its own. -/
def OwnChannel (db : LsDb) : Op → Prop
  | .addPeer link => ∀ c link', db.links.get c = some link' → link'.tx ≠ link.tx
  | _ => True

/-- The notes are exactly the outstanding numbers of live links. -/
def PendingExact (db : LsDb) (history : ConnectionId → LsaKey → List Transfer) : Prop :=
  ∀ c k s, db.pendingTx.get (c, k) = some s ↔
    (∃ link, db.links.get c = some link) ∧ Transfer.Outstanding (history c k) s

/-- One hand-over is refused and leaves everything as it is, or it is queued and noted. -/
theorem sendAndTrack_cases (link : Link) (lsa : Lsa)
    (acc : HashMap (ConnectionId × LsaKey) Nat × Wires) :
    (¬ link.Takes acc.2 lsa ∧ (sendAndTrack link lsa acc).1 = acc.1 ∧
      (sendAndTrack link lsa acc).2.node = acc.2.node) ∨
    link.Takes acc.2 lsa ∧ ∃ l, link.permits lsa = some l ∧
      (sendAndTrack link lsa acc).1 = acc.1.insert (link.connectionId, lsa.key) lsa.seq ∧
      (∀ t, t ≠ link.tx → (sendAndTrack link lsa acc).2.node t = acc.2.node t) ∧
      ((sendAndTrack link lsa acc).2.node link.tx).queue =
        (acc.2.node link.tx).queue ++ [.lsa l] := by
  unfold sendAndTrack Link.sendLsa Link.trySend
  cases hp : link.permits lsa with
  | none => exact .inl ⟨fun htakes => by simp [Link.Takes, hp] at htakes, rfl, rfl⟩
  | some l =>
    cases hs : (acc.2.node link.tx).trySend (.lsa l) with
    | error e =>
      refine .inl ⟨?_, by simp [hs], by simp [hs]⟩
      rintro ⟨-, hopen, hroom⟩
      rw [Chan.trySend_eq_ok_iff.mpr ⟨hopen, hroom, rfl⟩] at hs
      cases hs
    | ok ch =>
      obtain ⟨hopen, hroom, rfl⟩ := Chan.trySend_eq_ok_iff.mp hs
      refine .inr ⟨⟨by simp [hp], hopen, hroom⟩, l, rfl, by simp [hs], fun t ht => ?_, by simp [hs]⟩
      simp [hs, Function.update_of_ne ht]

theorem lsasOf_append (q q' : List NodeMessage) : lsasOf (q ++ q') = lsasOf q ++ lsasOf q' :=
  List.filterMap_append

/-- The note of a connection and key after some hand-overs is the last number its channel
took, or else what it was. -/
theorem trackAll_note {c : ConnectionId} {t : Tx} {sends : List (Link × Lsa)}
    (h : ∀ s ∈ sends, s.1.connectionId = c ↔ s.1.tx = t)
    (acc : HashMap (ConnectionId × LsaKey) Nat × Wires) (k : LsaKey) :
    ∃ q, ((trackAll sends acc).2.node t).queue = (acc.2.node t).queue ++ q ∧
      (trackAll sends acc).1.get (c, k) = (seqsOf k (lsasOf q)).getLast?.or (acc.1.get (c, k)) := by
  induction sends using List.reverseRecOn with
  | nil => exact ⟨[], by simp [trackAll], rfl⟩
  | append_singleton sends s ih =>
    obtain ⟨q, hq, hnote⟩ := ih fun s' hs' => h s' (List.mem_append_left _ hs')
    have hs := h s (List.mem_append_right _ (List.mem_singleton_self s))
    rw [trackAll_append]
    generalize trackAll sends acc = acc' at hq hnote ⊢
    have hone : trackAll [s] acc' = sendAndTrack s.1 s.2 acc' := rfl
    rw [hone]
    rcases sendAndTrack_cases s.1 s.2 acc' with ⟨-, hp, hw⟩ | ⟨-, l, hl, hp, hother, hw⟩
    · exact ⟨q, by rw [hw, hq], by rw [hp, hnote]⟩
    · obtain ⟨hkey, hseq, -⟩ := Link.permits_some hl
      by_cases hc : s.1.connectionId = c
      · obtain rfl := hs.mp hc
        refine ⟨q ++ [.lsa l], by rw [hw, hq, List.append_assoc], ?_⟩
        rw [hp, hc, HashMap.get_insert, lsasOf_append]
        by_cases hk : s.2.key = k
        · rw [if_pos (by rw [hk])]
          simp [seqsOf, lsasOf, hkey, hk, hseq]
        · rw [if_neg (by simpa [eq_comm] using hk), hnote]
          simp [seqsOf, lsasOf, hkey, hk]
      · refine ⟨q, by rw [hother t fun ht => hc (hs.mpr ht.symm), hq], ?_⟩
        rw [hp, HashMap.get_insert, if_neg, hnote]
        intro heq
        exact hc (Prod.mk.inj heq).1.symm

/-- Hand-overs to other connections leave the notes of a connection alone. -/
theorem trackAll_note_of_ne {c : ConnectionId} {sends : List (Link × Lsa)}
    (h : ∀ s ∈ sends, s.1.connectionId ≠ c) (acc : HashMap (ConnectionId × LsaKey) Nat × Wires)
    (k : LsaKey) : (trackAll sends acc).1.get (c, k) = acc.1.get (c, k) := by
  induction sends using List.reverseRecOn with
  | nil => rfl
  | append_singleton sends s ih =>
    have hold := ih fun s' hs' => h s' (List.mem_append_left _ hs')
    have hs := h s (List.mem_append_right _ (List.mem_singleton_self s))
    rw [trackAll_append, ← hold]
    generalize trackAll sends acc = acc'
    change (sendAndTrack s.1 s.2 acc').1.get (c, k) = _
    rcases sendAndTrack_cases s.1 s.2 acc' with ⟨-, hp, -⟩ | ⟨-, l, -, hp, -⟩
    · rw [hp]
    · rw [hp, HashMap.get_insert, if_neg]
      intro heq
      exact hs (Prod.mk.inj heq).1.symm

/-- An acknowledgement is no LSA. -/
theorem acknowledged_queue (db : LsDb) (w : Wires) (op : Op) (t : Tx) :
    ∃ q, ((db.acknowledged w op).node t).queue = (w.node t).queue ++ q ∧ lsasOf q = [] := by
  cases op with
  | handleLsa lsa c =>
    rw [acknowledged, sendAck_node, Chan.offerAll_queue]
    split
    · exact ⟨[], by simp, rfl⟩
    · split
      · refine ⟨_, rfl, ?_⟩
        apply List.filterMap_eq_nil_iff.mpr
        intro m hm
        rw [List.mem_singleton.mp (List.mem_of_mem_take hm)]
      · exact ⟨[], by simp, rfl⟩
  | _ => exact ⟨[], (List.append_nil _).symm, rfl⟩

theorem handleAck_note (db : LsDb) (sender : ConnectionId) (key : LsaKey) (seq : ℕ) (c : ConnectionId)
    (k : LsaKey) : (db.handleAck sender key seq).pendingTx.get (c, k) =
      if sender = c ∧ key = k then Transfer.next (db.pendingTx.get (c, k)) (.acked seq)
      else db.pendingTx.get (c, k) := by
  unfold handleAck
  split
  · next val hval =>
    by_cases heq : sender = c ∧ key = k
    · obtain ⟨rfl, rfl⟩ := heq
      by_cases hlt : seq < val
      · simp [Transfer.next, hval, hlt, Option.filter]
      · simp [Transfer.next, hval, hlt, Option.filter]
    · have hne : ((c, k) : ConnectionId × LsaKey) ≠ (sender, key) := by
        intro h
        obtain ⟨rfl, rfl⟩ := Prod.mk.inj h
        exact heq ⟨rfl, rfl⟩
      rw [if_neg heq]
      split
      · rw [HashMap.get_insert, if_neg hne, HashMap.get_erase, if_neg hne]
      · rw [HashMap.get_erase, if_neg hne]
  · next hnone =>
    split
    · next heq =>
      obtain ⟨rfl, rfl⟩ := heq
      rw [hnone]
      rfl
    · rfl

/-- What holds along a run in which every peer brings its own channel. -/
structure Noted (db : LsDb) (history : ConnectionId → LsaKey → List Transfer) : Prop where
  ok : db.Ok
  channels : ∀ c c' link link', db.links.get c = some link → db.links.get c' = some link' →
    link.tx = link'.tx → c = c'
  note : ∀ c k, db.pendingTx.get (c, k) = Transfer.outstanding (history c k)

section Step

variable {db db' : LsDb} {w w' : Wires} {now : Instant} {op : Op}
  {history : ConnectionId → LsaKey → List Transfer}

/-- The links around an operation have channels of their own. -/
theorem Noted.upLink_channels (h : Noted db history) (hown : db.OwnChannel op)
    (hstep : db.step w now op = some (db', w')) {c c' : ConnectionId} {link link' : Link}
    (hc : upLink db db' c = some link) (hc' : upLink db db' c' = some link') (ht : link.tx = link'.tx) :
    c = c' := by
  have hcases : ∀ {c link}, upLink db db' c = some link →
      db.links.get c = some link ∨ op = .addPeer link ∧ c = link.connectionId := by
    intro c link hc
    rcases Option.or_eq_some_iff.mp hc with hc | ⟨-, hc⟩
    · exact step_links hstep hc
    · exact .inl hc
  rcases hcases hc with hold | ⟨rfl, rfl⟩
  · rcases hcases hc' with hold' | ⟨rfl, rfl⟩
    · exact h.channels c c' link link' hold hold' ht
    · exact absurd ht (hown c link hold)
  · rcases hcases hc' with hold' | ⟨heq, rfl⟩
    · exact absurd ht.symm (hown c' link' hold')
    · rw [Op.addPeer.inj heq]

/-- The notes follow the hand-overs of an operation. -/
theorem Noted.note_sends (h : Noted db history) (hown : db.OwnChannel op)
    (hstep : db.step w now op = some (db', w')) (hack : ∀ c k s, op ≠ .handleAck c k s)
    (c : ConnectionId) (k : LsaKey) :
    db'.pendingTx.get (c, k) = Transfer.outstanding (history c k ++ transfers db db' w w' op c k) := by
  obtain ⟨hpend, hnode⟩ := step_tracks hstep hack
  have hup : ∀ s ∈ db.sends w now op, upLink db db' s.1.connectionId = some s.1 := by
    intro s hs
    rcases (mem_sends h.ok hstep hs).1 with hl | ⟨-, hnone, hl⟩
    · rw [upLink, hl]
      rfl
    · rw [upLink, hnone, hl]
      rfl
  have htransfers : transfers db db' w w' op c k = match upLink db db' c with
      | some link => (seqsOf k (newLsas w w' link.tx)).map .queued
      | none => [] := by
    cases op with
    | handleAck c k s => exact absurd rfl (hack c k s)
    | _ => rfl
  rw [htransfers, hpend]
  cases hc : upLink db db' c with
  | none =>
    rw [trackAll_note_of_ne, h.note, List.append_nil]
    intro s hs heq
    have hs' := hup s hs
    rw [heq, hc] at hs'
    cases hs'
  | some link =>
    have hsends : ∀ s ∈ db.sends w now op, s.1.connectionId = c ↔ s.1.tx = link.tx := by
      intro s hs
      constructor
      · intro heq
        have hs' := hup s hs
        rw [heq, hc] at hs'
        rw [Option.some.inj hs']
      · exact fun ht => h.upLink_channels hown hstep (hup s hs) hc ht
    obtain ⟨q, hq, hnote⟩ := trackAll_note hsends (db.pendingTx, db.acknowledged w op) k
    obtain ⟨a, ha, hnil⟩ := acknowledged_queue db w op link.tx
    have hnew : newLsas w w' link.tx = lsasOf q := by
      rw [newLsas, hnode, hq, ha, List.append_assoc, List.drop_left, lsasOf_append, hnil,
        List.nil_append]
    simp only
    rw [hnote, Transfer.outstanding, List.foldl_append, ← Transfer.outstanding, hnew,
      Transfer.foldl_next_queued, h.note]

theorem Noted.step (h : Noted db history) (hown : db.OwnChannel op)
    (hstep : db.step w now op = some (db', w')) :
    Noted db' fun c k => history c k ++ transfers db db' w w' op c k where
  ok := (step_advances h.ok hstep).ok
  channels c c' link link' hc hc' ht := by
    have hup : ∀ {c link}, db'.links.get c = some link → upLink db db' c = some link := by
      intro c link hc
      rw [upLink, hc]
      rfl
    exact h.upLink_channels hown hstep (hup hc) (hup hc') ht
  note c k := by
    by_cases hack : ∃ c k s, op = .handleAck c k s
    · obtain ⟨sender, key, seq, rfl⟩ := hack
      obtain ⟨rfl, -⟩ := Prod.mk.inj (Option.some.inj hstep)
      rw [handleAck_note, transfers]
      split
      · rw [Transfer.outstanding_append, h.note]
      · rw [List.append_nil, h.note]
    · exact h.note_sends hown hstep (fun c k s heq => hack ⟨c, k, s, heq⟩) c k

end Step

/-- In every run the notes are exactly what the queues and acknowledgements leave. -/
theorem Traced.noted {allowed : LsDb → Wires → Instant → Op → Prop} {selfId : NodeId} {db : LsDb}
    {history : ConnectionId → LsaKey → List Transfer} (h : Traced allowed selfId db history)
    (hown : ∀ db w now op, allowed db w now op → db.OwnChannel op) : Noted db history := by
  induction h with
  | new now =>
    refine ⟨Ok.new selfId now, fun c _ link _ hc => ?_, fun _ _ => rfl⟩
    change (∅ : HashMap ConnectionId Link).get c = some link at hc
    simp at hc
  | rehash _ hre ih =>
    refine ⟨ih.ok.rehash hre, fun c c' link link' hc hc' => ?_, fun c k => ?_⟩
    · rw [hre.get_link] at hc hc'
      exact ih.channels c c' link link' hc hc'
    · rw [← ih.note c k]
      exact (HashMap.get_eq_of_perm hre.pending (c, k)).symm
  | step w now op _ hallowed hstep ih => exact ih.step (hown _ _ _ _ hallowed) hstep

/-- No note is left behind: a link that is given up has none, and before a shutdown there is
none at all and no link takes the withdrawal of the node. -/
def LeavesNoNote (db : LsDb) (w : Wires) : Op → Prop
  | .removePeer c => (db.links.get c).isSome → ∀ k, db.pendingTx.get (c, k) = none
  | .shutdown => (∀ c k, db.pendingTx.get (c, k) = none) ∧
      ∀ c link record, db.links.get c = some link → db.db.get db.selfKey = some record →
        db.floodSkips (withdrawal record) none c link = false → ¬ link.Takes w (withdrawal record)
  | _ => True

/-- Hand-overs that are all refused note nothing. -/
theorem trackAll_refused {sends : List (Link × Lsa)}
    {acc : HashMap (ConnectionId × LsaKey) Nat × Wires} (h : ∀ s ∈ sends, ¬ s.1.Takes acc.2 s.2) :
    (trackAll sends acc).1 = acc.1 := by
  induction sends generalizing acc with
  | nil => rfl
  | cons s sends ih =>
    change (trackAll sends (sendAndTrack s.1 s.2 acc)).1 = acc.1
    rcases sendAndTrack_cases s.1 s.2 acc with ⟨-, hp, hw⟩ | ⟨htakes, -⟩
    · rw [ih, hp]
      intro s' hs'
      rw [Link.Takes, hw]
      exact h s' (List.mem_cons_of_mem _ hs')
    · exact absurd htakes (h s List.mem_cons_self)

section Live

variable {db db' : LsDb} {w w' : Wires} {now : Instant} {op : Op}

/-- Every note is of a live link. -/
def NotesLive (db : LsDb) : Prop :=
  ∀ c k s, db.pendingTx.get (c, k) = some s → ∃ link, db.links.get c = some link

/-- Only giving up a link and a shutdown end a connection. -/
theorem links_kept (h : db.step w now op = some (db', w')) (hop : op ≠ .shutdown) {c : ConnectionId}
    (hne : op ≠ .removePeer c) {link : Link} (hc : db.links.get c = some link) :
    ∃ link', db'.links.get c = some link' := by
  have hchange := (step_change h).2
  have hlinks : db'.links = db'.parts.links := rfl
  generalize hparts : db'.parts = parts at hchange
  rw [hparts] at hlinks
  rw [hlinks]
  cases hchange with
  | addPeer hb =>
    simp only [HashMap.get_insert]
    split
    · exact ⟨_, rfl⟩
    · exact ⟨link, hc⟩
  | removePeer hl =>
    simp only [HashMap.get_erase]
    rw [if_neg fun heq => hne (by rw [heq])]
    exact ⟨link, hc⟩
  | handleLsa hh => exact ⟨link, by cases hh <;> exact hc⟩
  | shutdown => exact absurd rfl hop
  | quiet | addEndpoint | removeEndpoint | setAnycastCost | tick => exact ⟨link, hc⟩

theorem NotesLive.step (hlive : db.NotesLive) (hok : db.Ok) (hleaves : db.LeavesNoNote w op)
    (h : db.step w now op = some (db', w')) : db'.NotesLive := by
  by_cases hack : ∃ c k s, op = .handleAck c k s
  · obtain ⟨sender, key, seq, rfl⟩ := hack
    obtain ⟨rfl, -⟩ := Prod.mk.inj (Option.some.inj h)
    intro c k s hs
    rw [handleAck_note] at hs
    have hold : ∃ link, db.links.get c = some link := by
      split at hs
      · exact hlive c k s (Option.filter_eq_some_iff.mp hs).1
      · exact hlive c k s hs
    obtain ⟨p, hp⟩ := handleAck_frame db sender key seq
    rw [hp]
    exact hold
  · obtain ⟨hpend, -⟩ := step_tracks h fun c k s heq => hack ⟨c, k, s, heq⟩
    by_cases hshut : op = .shutdown
    · subst hshut
      obtain ⟨hnone, hrefuse⟩ := hleaves
      intro c k s hs
      rw [hpend, trackAll_refused, hnone] at hs
      · cases hs
      · intro s' hs'
        obtain ⟨f, hf, hs'⟩ := List.mem_flatMap.mp ((List.mem_append.mp hs').resolve_right (by simp))
        obtain ⟨hlsa, c', hc', hskip⟩ := mem_floodSends.mp hs'
        simp only [floods] at hf
        split at hf
        · next record hr =>
          split at hf
          · obtain rfl := List.mem_singleton.mp hf
            rw [hlsa]
            exact hrefuse c' s'.1 record hc' hr hskip
          · cases hf
        · cases hf
    · intro c k s hs
      rw [hpend] at hs
      rcases trackAll_pending hs with hold | ⟨s', hs', hc, -⟩
      · obtain ⟨link, hlink⟩ := hlive c k s hold
        refine links_kept h hshut ?_ hlink
        rintro rfl
        rw [hleaves (by rw [hlink]; rfl) k] at hold
        cases hold
      · rcases (mem_sends hok h hs').1 with hl | hl
        · exact ⟨s'.1, hc ▸ hl⟩
        · exact absurd hl.1 hshut

/-- In every run in which no link is given up with a note, the notes are exactly the
unacknowledged LSAs of live links. -/
theorem pending_exact (selfId : NodeId) (db : LsDb) (history : ConnectionId → LsaKey → List Transfer)
    (h : Traced (fun db w _ op => db.OwnChannel op ∧ db.LeavesNoNote w op) selfId db history) :
    db.PendingExact history := by
  have hnoted := h.noted fun _ _ _ _ hallowed => hallowed.1
  have hlive : db.NotesLive := by
    induction h with
    | new now => exact fun _ _ _ hs => by cases hs
    | rehash hprev hre ih =>
      intro c k s hs
      rw [hre.get_link]
      apply ih (hprev.noted fun _ _ _ _ hallowed => hallowed.1) c k s
      rw [← hs]
      exact HashMap.get_eq_of_perm hre.pending (c, k)
    | step w now op hprev hallowed hstep ih =>
      have hprev' := hprev.noted fun _ _ _ _ hallowed => hallowed.1
      exact (ih hprev').step hprev'.ok hallowed.2 hstep
  intro c k s
  rw [← Transfer.outstanding_eq_some_iff, ← hnoted.note]
  exact ⟨fun hs => ⟨hlive c k s hs, hs⟩, fun hs => hs.2⟩

end Live

end LsDb

/-- The link of node 1 to node 2 over connection 0. -/
def firstLinkOfOne : Link := ⟨0, 2, 0, {.global}, ⟨1, Cost.one_le_max⟩⟩

/-- Node 1 with that link, whose database is on its way to node 2. -/
def firstLinkDb : LsDb := ((LsDb.new 1 0).addPeer (.idle 32) firstLinkOfOne 0).1

theorem firstLinkDb_traced (allowed : LsDb → Wires → Instant → Op → Prop)
    (h : allowed (LsDb.new 1 0) (.idle 32) 0 (.addPeer firstLinkOfOne)) :
    ∃ history, LsDb.Traced allowed 1 firstLinkDb history :=
  ⟨_, (LsDb.Traced.new 0).step (.idle 32) 0 (.addPeer firstLinkOfOne) h rfl⟩

theorem ownChannel_firstLink : (LsDb.new 1 0).OwnChannel (.addPeer firstLinkOfOne) := by
  intro c link hc
  change (∅ : HashMap ConnectionId Link).get c = some link at hc
  simp at hc

/-- The LSA that was on its way when the link was given up stays noted. -/
theorem pending_of_lost_link :
    ¬ ∀ (selfId : NodeId) (db : LsDb) (history : ConnectionId → LsaKey → List Transfer),
      LsDb.Traced (fun db _ _ op => db.OwnChannel op) selfId db history → db.PendingExact history := by
  intro h
  obtain ⟨history, hlinked⟩ := firstLinkDb_traced (fun db _ _ op => db.OwnChannel op)
    ownChannel_firstLink
  have hsome : (firstLinkDb.removePeer (.idle 32) 0 0).isSome = true := by decide +kernel
  obtain ⟨⟨db, w⟩, hstep⟩ := Option.isSome_iff_exists.mp hsome
  have hafter : (firstLinkDb.removePeer (.idle 32) 0 0).map
      (fun r => (r.1.pendingTx.get (0, ⟨1, 1⟩), r.1.links.get 0)) = some (some 1, none) := by
    decide +kernel
  rw [hstep] at hafter
  obtain ⟨hnote, hlost⟩ := Prod.mk.inj (Option.some.inj hafter)
  have hlost' := hlinked.step (.idle 32) 0 (.removePeer 0) trivial hstep
  obtain ⟨⟨link, hlink⟩, -⟩ := (h 1 db _ hlost' 0 ⟨1, 1⟩ 1).mp hnote
  rw [hlost] at hlink
  cases hlink

/-- While the link is up its note is exact. -/
theorem pending_of_live_link :
    ∃ history, LsDb.Traced (fun db w _ op => db.OwnChannel op ∧ db.LeavesNoNote w op) 1 firstLinkDb history ∧
      firstLinkDb.pendingTx.get (0, ⟨1, 1⟩) = some 1 ∧ firstLinkDb.PendingExact history := by
  obtain ⟨history, h⟩ := firstLinkDb_traced
    (fun db w _ op => db.OwnChannel op ∧ db.LeavesNoNote w op)
    ⟨ownChannel_firstLink, trivial⟩
  exact ⟨history, h, by decide +kernel, LsDb.pending_exact 1 firstLinkDb history h⟩

end Anybus
