import Pipeworks.Proofs.Broker.Topics
import Mathlib.Data.List.Infix

/-!
What subscriptions get of the records of a topic. Whoever publishes, produces, subscribes and reads at the same time,
and whichever brokers go down and come up again, a subscription has given the first records of its topic, in the order
of the topic; it does not wait for a record that is there unless somebody is about to wake it; and the records of a
topic are those that were sent to it and not refused.
-/

namespace Pipeworks.Hub

variable {h : Hub} {c : Channel}

/-! ### Subscriptions -/

namespace Reader

variable {r : Reader}

/-- What a subscription has given is the beginning of its topic, up to its place. -/
structure Faithful (h : Hub) (r : Reader) : Prop where
  given : r.given <+: (h.records r.place.channel).toList
  length_given : r.given.length = r.place.offset

/-- Nobody would miss a record by waiting here: the subscription was woken, or it is not waiting, or there is no record
at its place. -/
def Current (h : Hub) (r : Reader) : Prop := r.reading = .waiting false → h.next? r.place = none

theorem Faithful.eq_take (hr : r.Faithful h) : r.given = (h.records r.place.channel).toList.take r.place.offset := by
  rw [← hr.length_given]
  exact List.prefix_iff_eq_take.mp hr.given

theorem Faithful.mono {h' : Hub} (hr : r.Faithful h)
    (hgrow : (h.records r.place.channel).toList <+: (h'.records r.place.channel).toList) : r.Faithful h' :=
  ⟨hr.given.trans hgrow, hr.length_given⟩

theorem Faithful.wake (hr : r.Faithful h) (c : Channel) : (r.wake c).Faithful h := by
  unfold Reader.wake
  split_ifs
  · exact ⟨hr.given, hr.length_given⟩
  · exact hr

/-- After a wake-up no subscription of the topic waits for another one. -/
theorem channel_ne_of_waiting (hwait : (r.wake c).reading = .waiting false) : r.place.channel ≠ c ∧ r.wake c = r := by
  unfold Reader.wake at hwait ⊢
  split_ifs at hwait ⊢ with hc
  · cases hreading : r.reading <;> simp [hreading, Reading.wake] at hwait
  · exact ⟨hc, rfl⟩

@[simp] theorem channel_advance (h : Hub) (r : Reader) : (r.advance h).place.channel = r.place.channel := by
  unfold advance
  split
  · rfl
  · split
    · rename_i hnext
      rw [(next?_eq_some hnext).2]
    · rfl
  · rfl
  · rfl

theorem Faithful.advance (hr : r.Faithful h) : (r.advance h).Faithful h := by
  unfold Reader.advance
  split
  · exact ⟨hr.given, hr.length_given⟩
  · split
    · rename_i record place hnext
      obtain ⟨hrecord, rfl⟩ := next?_eq_some hnext
      refine ⟨?_, by simp [hr.length_given]⟩
      rw [← Array.getElem?_toList, List.getElem?_eq_some_iff] at hrecord
      obtain ⟨hlt, rfl⟩ := hrecord
      rw [hr.eq_take, List.take_append_getElem]
      exact List.take_prefix _ _
    · exact ⟨hr.given, hr.length_given⟩
  · exact ⟨hr.given, hr.length_given⟩
  · exact hr

/-- A subscription looks at its place before it waits. -/
theorem Current.advance (hr : r.Current h) : (r.advance h).Current h := by
  intro hwait
  cases hreading : r.reading with
  | idle => simp [Reader.advance, hreading] at hwait
  | armed woken =>
      cases hnext : h.next? r.place with
      | none => simp only [Reader.advance, hreading, hnext]
      | some found => simp [Reader.advance, hreading, hnext] at hwait
  | waiting woken =>
      cases woken with
      | true => simp [Reader.advance, hreading] at hwait
      | false => simpa only [Reader.advance, hreading] using hr hreading

end Reader

namespace Traffic

variable {t : Traffic} {k : Nat} {s : Sending}

/-! ### One act -/

def reached (c : Channel) (s : Sending) : Bool := s.channel = c ∧ (s.leg = .added ∨ s.leg = .sent)

/-- The records that were sent to a topic and not refused, as far as they have reached it. -/
def arrivals (t : Traffic) (c : Channel) : List Record := (t.sendings.filter (reached c)).map (·.record)

def Owes (t : Traffic) (c : Channel) : Prop := ∃ s ∈ t.sendings, s.channel = c ∧ s.leg = .added

theorem exists_split (hk : t.sendings[k]? = some s) :
    ∃ front back, t.sendings = front ++ s :: back ∧ ∀ s', t.sendings.set k s' = front ++ s' :: back := by
  obtain ⟨hlt, rfl⟩ := List.getElem?_eq_some_iff.mp hk
  refine ⟨t.sendings.take k, t.sendings.drop (k + 1), ?_, fun s' => ?_⟩
  · rw [List.getElem_cons_drop, List.take_append_drop]
  · rw [List.set_eq_take_append_cons_drop, if_pos hlt]

/-- A sending that goes on without adding its record leaves the arrivals as they were. -/
theorem arrivals_setLeg (hk : t.sendings[k]? = some s) {leg : Leg}
    (hleg : (leg = .added ∨ leg = .sent) ↔ (s.leg = .added ∨ s.leg = .sent)) (c : Channel) :
    (t.setLeg k s leg).arrivals c = t.arrivals c := by
  obtain ⟨front, back, hsplit, hset⟩ := exists_split hk
  have hreached : reached c { s with leg } = reached c s := by simp only [reached, hleg]
  simp only [arrivals, setLeg]
  rw [hset, hsplit]
  simp only [List.filter_append, List.filter_cons, hreached]
  split_ifs <;> simp only [List.map_append, List.map_cons]

theorem owes_setLeg (hk : t.sendings[k]? = some s) (leg : Leg) {c : Channel} (howes : t.Owes c)
    (hother : s.channel ≠ c ∨ s.leg ≠ .added) : (t.setLeg k s leg).Owes c := by
  obtain ⟨s₀, hmem, hchannel, hadded⟩ := howes
  obtain ⟨front, back, hsplit, hset⟩ := exists_split hk
  refine ⟨s₀, ?_, hchannel, hadded⟩
  rw [hsplit, List.mem_append, List.mem_cons] at hmem
  simp only [setLeg, hset, List.mem_append, List.mem_cons]
  rcases hmem with hfront | rfl | hback
  · exact .inl hfront
  · exact absurd hadded (hother.resolve_left (not_not_intro hchannel))
  · exact .inr (.inr hback)

structure Orderly (t : Traffic) : Prop where
  faithful : ∀ r ∈ t.readers, r.Faithful t.hub
  current : ∀ r ∈ t.readers, r.Current t.hub ∨ t.Owes r.place.channel
  arrivals : ∀ c, (t.hub.records c).toList.Perm (t.arrivals c)

namespace Orderly

theorem start : Orderly {} := ⟨by simp, by simp, fun _ => .refl _⟩

theorem withHub (ht : t.Orderly) {h' : Hub} (hsame : ∀ c, h'.records c = t.hub.records c) :
    Orderly { t with hub := h' } where
  faithful r hr := (ht.faithful r hr).mono (by rw [hsame])
  current r hr := (ht.current r hr).imp_left fun hcurrent hwait => by
    have hnext := next?_eq_none.mp (hcurrent hwait)
    exact next?_eq_none.mpr (by rw [hsame, hnext])
  arrivals c := by
    rw [hsame]
    exact ht.arrivals c

theorem setLeg (ht : t.Orderly) (hk : t.sendings[k]? = some s) {leg : Leg} (howes : s.leg ≠ .added)
    (hleg : (leg = .added ∨ leg = .sent) ↔ (s.leg = .added ∨ s.leg = .sent)) : (t.setLeg k s leg).Orderly where
  faithful := ht.faithful
  current r hr := (ht.current r hr).imp_right fun hr' => owes_setLeg hk leg hr' (.inr howes)
  arrivals c := by
    rw [arrivals_setLeg hk hleg]
    exact ht.arrivals c

/-- From the moment a record is added until the subscriptions are woken, the wake-up is owed. -/
theorem add (ht : t.Orderly) (hk : t.sendings[k]? = some s) (hleg : s.leg = .arrived) : (t.add k s).Orderly where
  faithful r hr := (ht.faithful r hr).mono (records_produce t.hub s.channel r.place.channel s.record)
  current r hr := by
    by_cases hc : r.place.channel = s.channel
    · obtain ⟨front, back, -, hset⟩ := exists_split hk
      refine .inr ⟨{ s with leg := .added }, ?_, hc.symm, rfl⟩
      simp [Traffic.add, Traffic.setLeg, hset]
    · refine (ht.current r hr).imp (fun hcurrent hwait => ?_) fun howes => ?_
      · have hnext := next?_eq_none.mp (hcurrent hwait)
        exact next?_eq_none.mpr (by simpa [Traffic.add, Traffic.setLeg, records_produce_eq, hc] using hnext)
      · exact owes_setLeg (t := { t with hub := _ }) hk .added howes (.inr (by simp [hleg]))
  arrivals c := by
    obtain ⟨front, back, hsplit, hset⟩ := exists_split hk
    have hbefore := ht.arrivals c
    have hnot : ¬reached c s = true := by simp [reached, hleg]
    rw [Traffic.arrivals, hsplit, List.filter_append, List.filter_cons_of_neg hnot, List.map_append] at hbefore
    change ((t.hub.produce s.channel s.record).records c).toList.Perm
      (((t.sendings.set k { s with leg := .added }).filter (reached c)).map (·.record))
    rw [records_produce_eq, hset]
    rw [List.filter_append]
    split_ifs with hc
    · have hreached : reached c { s with leg := .added } = true := by simp [reached, hc]
      rw [List.filter_cons_of_pos hreached, List.map_append, List.map_cons, Array.toList_push, ← hc]
      exact List.perm_append_comm.trans ((hbefore.cons s.record).trans List.perm_middle.symm)
    · have hreached : ¬reached c { s with leg := .added } = true := by
        simp only [reached, decide_eq_true_eq, not_and]
        exact fun heq => absurd heq.symm hc
      rwa [List.filter_cons_of_neg hreached, List.map_append]

/-- The wake-up reaches whoever waits for a record of the topic. -/
theorem wake (ht : t.Orderly) (hk : t.sendings[k]? = some s) (hleg : s.leg = .added) : (t.wake k s).Orderly where
  faithful r hr := by
    obtain ⟨r, hmem, rfl⟩ := List.mem_map.mp hr
    exact (ht.faithful r hmem).wake s.channel
  current r hr := by
    obtain ⟨r, hmem, rfl⟩ := List.mem_map.mp hr
    by_cases hwait : (r.wake s.channel).reading = .waiting false
    · obtain ⟨hc, hsame⟩ := Reader.channel_ne_of_waiting hwait
      rw [hsame]
      exact (ht.current r hmem).imp_right fun howes =>
        owes_setLeg (t := { t with readers := _ }) hk .sent howes (.inl hc.symm)
    · exact .inl fun h => absurd h hwait
  arrivals c := by
    have hboth : (Leg.sent = .added ∨ Leg.sent = .sent) ↔ (s.leg = .added ∨ s.leg = .sent) := by simp [hleg]
    have hsame := arrivals_setLeg (t := { t with readers := t.readers.map (Reader.wake s.channel) }) hk hboth c
    exact hsame ▸ ht.arrivals c

theorem carryOn (ht : t.Orderly) (hk : t.sendings[k]? = some s) (atOnce : Bool) :
    (t.carryOn k s atOnce).Orderly := by
  unfold Traffic.carryOn
  cases hleg : s.leg with
  | asked =>
      dsimp only
      split
      · exact ht.setLeg hk (by simp [hleg]) (by simp [hleg])
      · exact ht.setLeg hk (by simp [hleg]) (by simp [hleg])
  | admitted => exact (ht.withHub (records_locate t.hub s.channel)).setLeg hk (by simp [hleg]) (by simp [hleg])
  | arrived =>
      have hadd := ht.add hk hleg
      have hlt := (List.getElem?_eq_some_iff.mp hk).1
      cases atOnce with
      | true => exact hadd.wake (s := { s with leg := .added }) (List.getElem?_set_self hlt) rfl
      | false => exact hadd
  | added => exact ht.wake hk hleg
  | sent => exact ht
  | refused => exact ht

theorem begin (ht : t.Orderly) (s : Sending) (hleg : s.leg = .asked ∨ s.leg = .admitted) :
    Orderly { t with sendings := t.sendings ++ [s] } where
  faithful := ht.faithful
  current r hr := (ht.current r hr).imp_right fun ⟨s₀, hmem, howes⟩ => ⟨s₀, List.mem_append_left _ hmem, howes⟩
  arrivals c := by
    have hnot : ¬reached c s = true := by rcases hleg with hleg | hleg <;> simp [reached, hleg]
    simp only [Traffic.arrivals, List.filter_append, List.filter_cons_of_neg hnot, List.filter_nil, List.append_nil]
    exact ht.arrivals c

theorem subscribe (ht : t.Orderly) (c : Channel) : (t.subscribe c).Orderly := by
  have hlocated := ht.withHub (records_locate t.hub c)
  refine ⟨fun r hr => ?_, fun r hr => ?_, hlocated.arrivals⟩
  · rcases List.mem_append.mp hr with hold | hnew
    · exact hlocated.faithful r hold
    · obtain rfl := List.mem_singleton.mp hnew
      exact ⟨List.nil_prefix, rfl⟩
  · rcases List.mem_append.mp hr with hold | hnew
    · exact hlocated.current r hold
    · obtain rfl := List.mem_singleton.mp hnew
      exact .inl nofun

theorem read (ht : t.Orderly) {r : Reader} (hk : t.readers[k]? = some r) :
    Orderly { t with readers := t.readers.set k (r.advance t.hub) } := by
  have hmem := List.mem_of_getElem? hk
  refine ⟨fun r' hr' => ?_, fun r' hr' => ?_, ht.arrivals⟩
  · rcases List.mem_or_eq_of_mem_set hr' with hold | rfl
    · exact ht.faithful r' hold
    · exact (ht.faithful r hmem).advance
  · rcases List.mem_or_eq_of_mem_set hr' with hold | rfl
    · exact ht.current r' hold
    · rw [Reader.channel_advance]
      exact (ht.current r hmem).imp_left Reader.Current.advance

theorem play (ht : t.Orderly) (act : Act) : (t.play act).Orderly := by
  unfold Traffic.play
  cases act with
  | connect broker =>
      dsimp only [Traffic.connect]
      split
      · exact ⟨ht.faithful, ht.current, ht.arrivals⟩
      · exact ht
  | publish client topic record =>
      dsimp only
      split
      · exact ht.begin _ (.inl rfl)
      · exact ht
  | produce c record => exact ht.begin _ (.inr rfl)
  | send k atOnce =>
      dsimp only
      split
      · exact ht.carryOn ‹_› atOnce
      · exact ht
  | subscribe client topic =>
      dsimp only
      split
      · exact ht.subscribe _
      · exact ht
  | read k =>
      dsimp only
      split
      · exact ht.read ‹_›
      · exact ht
  | setDown broker down => exact ht.withHub (records_setDown t.hub broker down)

theorem plays (ht : t.Orderly) (acts : List Act) : (t.plays acts).Orderly := by
  induction acts generalizing t with
  | nil => exact ht
  | cons act acts ih => exact ih (ht.play act)

theorem after (acts : List Act) : (after acts).Orderly := start.plays acts

end Orderly

/-! ### Sendings -/

/-- A record is added to a topic only when a sending to that very topic gets there. -/
theorem records_play (t : Traffic) (act : Act) (c : Channel) :
    (t.play act).hub.records c = t.hub.records c ∨
      ∃ k atOnce s, act = .send k atOnce ∧ t.sendings[k]? = some s ∧ s.leg = .arrived ∧ s.channel = c ∧
        (t.play act).hub.records c = (t.hub.records c).push s.record := by
  cases act with
  | connect broker =>
      simp only [play, connect]
      split <;> exact .inl rfl
  | publish client topic record =>
      simp only [play]
      split <;> exact .inl rfl
  | produce c record => exact .inl rfl
  | send k atOnce =>
      cases hk : t.sendings[k]? with
      | none => exact .inl (by simp only [play, hk])
      | some s =>
          have hplay : t.play (.send k atOnce) = t.carryOn k s atOnce := by simp only [play, hk]
          rw [hplay]
          cases hleg : s.leg with
          | asked =>
              simp only [carryOn, hleg]
              split <;> exact .inl rfl
          | admitted =>
              simp only [carryOn, hleg]
              exact .inl (records_locate t.hub s.channel c)
          | arrived =>
              -- the only leg on which a record is added
              have hhub : (t.carryOn k s atOnce).hub = t.hub.produce s.channel s.record := by
                simp only [carryOn, hleg]
                cases atOnce <;> rfl
              rw [hhub, records_produce_eq]
              by_cases hc : c = s.channel
              · exact .inr ⟨k, atOnce, s, rfl, hk, hleg, hc.symm, by rw [if_pos hc, hc]⟩
              · exact .inl (if_neg hc)
          | added | sent | refused =>
              exact .inl (by simp only [carryOn, hleg, wake, setLeg])
  | subscribe client topic =>
      simp only [play]
      split
      · exact .inl (records_locate t.hub _ c)
      · exact .inl rfl
  | read k =>
      simp only [play]
      split <;> exact .inl rfl
  | setDown broker down => exact .inl (records_setDown t.hub broker down c)

theorem sendings_carryOn {j : Nat} (hne : j ≠ k) (s : Sending) (atOnce : Bool) :
    (t.carryOn j s atOnce).sendings[k]? = t.sendings[k]? := by
  have hset (t' : Traffic) (leg : Leg) (hsame : t'.sendings[k]? = t.sendings[k]?) :
      (t'.setLeg j s leg).sendings[k]? = t.sendings[k]? := (List.getElem?_set_ne hne).trans hsame
  unfold carryOn
  cases s.leg with
  | asked =>
      dsimp only
      split <;> exact hset _ _ rfl
  | admitted => exact hset _ _ rfl
  | arrived =>
      cases atOnce with
      | true => exact hset _ _ (hset _ _ rfl)
      | false => exact hset _ _ rfl
  | added => exact hset _ _ rfl
  | sent => rfl
  | refused => rfl

theorem refused_play (hk : t.sendings[k]? = some s) (hleg : s.leg = .refused) (act : Act) :
    (t.play act).sendings[k]? = some s := by
  have hlt := (List.getElem?_eq_some_iff.mp hk).1
  cases act with
  | connect broker =>
      simp only [play, connect]
      split <;> exact hk
  | publish client topic record =>
      simp only [play]
      split
      · exact (List.getElem?_append_left hlt).trans hk
      · exact hk
  | produce c record => exact (List.getElem?_append_left hlt).trans hk
  | send j atOnce =>
      simp only [play]
      split
      · rename_i s' hj
        by_cases hjk : j = k
        · obtain rfl : s' = s := Option.some.inj (hj.symm.trans (hjk ▸ hk))
          simpa only [carryOn, hleg] using hk
        · rw [sendings_carryOn hjk, hk]
      · exact hk
  | subscribe client topic =>
      simp only [play]
      split <;> exact hk
  | read j =>
      simp only [play]
      split <;> exact hk
  | setDown broker down => exact hk

theorem refused_plays (hk : t.sendings[k]? = some s) (hleg : s.leg = .refused) (acts : List Act) :
    (t.plays acts).sendings[k]? = some s := by
  induction acts generalizing t with
  | nil => exact hk
  | cons act acts ih => exact ih (refused_play hk hleg act)

/-- A sending that finds its broker down changes nothing but that it was refused, for good. -/
theorem plays_of_down (hk : t.sendings[k]? = some s) (hleg : s.leg = .asked) {e : Error}
    (hdown : t.hub.requireUp s.channel.broker = .error e) (atOnce : Bool) (later : List Act) :
    t.play (.send k atOnce) = t.setLeg k s .refused ∧
      ((t.play (.send k atOnce)).plays later).sendings[k]? = some { s with leg := .refused } := by
  have hplay : t.play (.send k atOnce) = t.setLeg k s .refused := by
    simp only [play, hk, carryOn, hleg, hdown]
  have hlt := (List.getElem?_eq_some_iff.mp hk).1
  refine ⟨hplay, refused_plays ?_ rfl later⟩
  rw [hplay]
  exact List.getElem?_set_self hlt

/-! ### Steps that take the wake-up with them -/

def Settled (t : Traffic) : Prop := ∀ s ∈ t.sendings, s.leg ≠ .added

theorem Settled.setLeg (ht : t.Settled) (k : Nat) (s : Sending) {leg : Leg} (hleg : leg ≠ .added) :
    (t.setLeg k s leg).Settled := by
  intro s' hs'
  rcases List.mem_or_eq_of_mem_set hs' with hold | rfl
  · exact ht s' hold
  · exact hleg

theorem Settled.append (ht : t.Settled) (hleg : s.leg ≠ .added) :
    Settled { t with sendings := t.sendings ++ [s] } := by
  intro s' hs'
  rcases List.mem_append.mp hs' with hold | hnew
  · exact ht s' hold
  · rwa [List.mem_singleton.mp hnew]

theorem Settled.carryOn (ht : t.Settled) (k : Nat) (s : Sending) : (t.carryOn k s true).Settled := by
  unfold Traffic.carryOn
  cases s.leg with
  | asked =>
      dsimp only
      split <;> exact ht.setLeg k s (by simp)
  | admitted => exact Settled.setLeg (t := { t with hub := _ }) ht k s (by simp)
  | arrived =>
      intro s' hs'
      change s' ∈ (t.sendings.set k _).set k _ at hs'
      rw [List.set_set] at hs'
      rcases List.mem_or_eq_of_mem_set hs' with hold | rfl
      · exact ht s' hold
      · simp
  | added => exact Settled.setLeg (t := { t with readers := _ }) ht k s (by simp)
  | sent => exact ht
  | refused => exact ht

theorem Settled.play (ht : t.Settled) {act : Act} (hact : act.prompt = true) : (t.play act).Settled := by
  unfold Traffic.play
  cases act with
  | connect broker =>
      dsimp only [Traffic.connect]
      split <;> exact ht
  | publish client topic record =>
      dsimp only
      split
      · exact ht.append (by simp)
      · exact ht
  | produce c record => exact ht.append (by simp)
  | send k atOnce =>
      obtain rfl : atOnce = true := hact
      dsimp only
      split
      · exact ht.carryOn k _
      · exact ht
  | subscribe client topic =>
      dsimp only
      split <;> exact ht
  | read k =>
      dsimp only
      split <;> exact ht
  | setDown broker down => exact ht

theorem Settled.plays (ht : t.Settled) {acts : List Act} (hacts : ∀ act ∈ acts, act.prompt = true) :
    (t.plays acts).Settled := by
  induction acts generalizing t with
  | nil => exact ht
  | cons act acts ih =>
      exact ih (ht.play (hacts act List.mem_cons_self)) fun act' hact' => hacts act' (List.mem_cons_of_mem _ hact')

/-! ### Users that nobody disturbs -/

/-- Publishing does to the hub at once what `publish` does, when nobody comes between. -/
theorem hub_plays_publish {client : Nat} {broker : String} (hclient : t.clients[client]? = some broker)
    (topic : String) (record : Record) :
    let k := t.sendings.length
    (t.plays [.publish client topic record, .send k true, .send k true, .send k true]).hub =
      (t.hub.publish ⟨broker, topic⟩ record).toOption.getD t.hub := by
  by_cases hdown : broker ∈ t.hub.down
  · simp [plays, play, carryOn, hclient, setLeg, publish, requireUp, hdown, Except.toOption]
  · simpa [plays, play, carryOn, hclient, setLeg, publish, requireUp, hdown, Except.toOption, add, wake] using
      produce_locate t.hub ⟨broker, topic⟩ record

/-! ### The topics and their subscriptions at any time -/

/-- However publishing, producing, subscribing and reading are interleaved, and whichever brokers go down and come up
again: what a subscription has given are the first records of its topic, in the order of the topic. It does not wait
for a wake-up while there is a record at its place, where the access that adds a record is one step with the wake-up
that belongs to it; and where others may come between the two, it does so only as long as somebody is about to wake it.
A connection that fails changes nothing, and a publication that finds its broker down is refused for good; the records
of a topic are those that were sent to it and have got there. And only a sending to a topic changes its records. -/
theorem gives_the_first_records (acts : List Act) :
    let t := after acts
    (∀ r ∈ t.readers, r.given = (t.hub.records r.place.channel).toList.take r.place.offset ∧
      r.given.length = r.place.offset) ∧
    ((∀ act ∈ acts, act.prompt = true) → ∀ r ∈ t.readers, r.reading = .waiting false →
      (t.hub.records r.place.channel)[r.place.offset]? = none) ∧
    (∀ r ∈ t.readers, r.reading = .waiting false →
      (t.hub.records r.place.channel)[r.place.offset]? = none ∨ t.Owes r.place.channel) ∧
    (∀ broker e, t.hub.connect broker = .error e → t.play (.connect broker) = t) ∧
    (∀ k s e, t.sendings[k]? = some s → s.leg = .asked → t.hub.requireUp s.channel.broker = .error e →
      ∀ atOnce later, t.play (.send k atOnce) = t.setLeg k s .refused ∧
        ((t.play (.send k atOnce)).plays later).sendings[k]? = some { s with leg := .refused }) ∧
    (∀ c, (t.hub.records c).toList.Perm (t.arrivals c)) ∧
    ∀ act c, (t.play act).hub.records c = t.hub.records c ∨
      ∃ k atOnce s, act = .send k atOnce ∧ t.sendings[k]? = some s ∧ s.leg = .arrived ∧ s.channel = c ∧
        (t.play act).hub.records c = (t.hub.records c).push s.record := by
  intro t
  have horderly : t.Orderly := .after acts
  have hwaits : ∀ r ∈ t.readers, r.reading = .waiting false →
      (t.hub.records r.place.channel)[r.place.offset]? = none ∨ t.Owes r.place.channel := fun r hr hwait =>
    (horderly.current r hr).imp_left fun hcurrent => next?_eq_none.mp (hcurrent hwait)
  refine ⟨fun r hr => ?_, fun hprompt r hr hwait => ?_, hwaits, fun broker e hconnect => ?_,
    fun k s e hk hleg hdown => plays_of_down hk hleg hdown, horderly.arrivals, records_play t⟩
  · have hfaithful := horderly.faithful r hr
    exact ⟨hfaithful.eq_take, hfaithful.length_given⟩
  · have hsettled : t.Settled := Settled.plays (t := {}) nofun hprompt
    refine (hwaits r hr hwait).resolve_right ?_
    rintro ⟨s, hs, -, hadded⟩
    exact hsettled s hs hadded
  · simp only [play, connect, hconnect]

def letter : Record := .ofPayload ⟨#[49]⟩

/-- A subscription waits, gets a record, and waits again; then the broker goes down, and one more record is to be
published. -/
def visit : List Act :=
  [.connect "b", .subscribe 0 "x", .read 0, .read 0, .publish 0 "x" letter, .send 0 true, .send 0 true, .send 0 true,
    .read 0, .read 0, .read 0, .read 0, .read 0, .setDown "b" true, .publish 0 "x" letter]

theorem gives_the_first_records_visit :
    let t := after visit
    let r : Reader := ⟨⟨⟨"b", "x"⟩, 1⟩, .waiting false, [letter]⟩
    t.readers = [r] ∧ r.given = (t.hub.records r.place.channel).toList.take r.place.offset ∧
      (t.hub.records r.place.channel)[r.place.offset]? = none ∧ t.play (.connect "b") = t ∧
      t.sendings[1]? = some ⟨⟨"b", "x"⟩, letter, .asked⟩ ∧
      ((t.play (.send 1 true)).plays [.setDown "b" false, .send 1 true]).sendings[1]? =
        some ⟨⟨"b", "x"⟩, letter, .refused⟩ := by
  intro t r
  have hreaders : t.readers = [r] := rfl
  have hr : r ∈ t.readers := hreaders ▸ List.mem_singleton_self r
  obtain ⟨hgiven, hprompt, -, hconnect, hrefused, -, -⟩ := gives_the_first_records visit
  exact ⟨hreaders, (hgiven r hr).1, hprompt (by decide) r hr rfl, hconnect "b" _ rfl, rfl,
    (hrefused 1 _ _ rfl rfl rfl true _).2⟩

/-- Between the access that adds a record and the wake-up, the subscription still waits. -/
example :
    let t := after (visit.take 7 ++ [.send 0 false])
    t.readers.map (·.reading) = [.waiting false] ∧ (t.hub.records ⟨"b", "x"⟩).size = 1 := by
  exact ⟨rfl, rfl⟩

end Traffic

end Pipeworks.Hub
