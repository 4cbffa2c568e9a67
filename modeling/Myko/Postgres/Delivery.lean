import Myko.Postgres.Consumer

/-!
One consumer beside any number of transactions that insert into the event table: every committed row of
another host is in the start-up snapshot or applied once, as long as no transaction commits a row the
consumer's cursor has already passed.
-/

namespace Myko.Postgres

/-- What a consumer past its snapshot has read: the rows the snapshot query saw and, in order, the rows it
has applied to its store. -/
structure Reader where
  seen : EventRows
  consumer : Consumer
  applied : List (Nat × SourcedEvent)

inductive Phase where
  | idle
  | counted (highWater : Nat)
  | tailing (reader : Reader)

/-- The event table and one consumer of it. -/
structure Tailing (T : Type) where
  table : SerialTable T SourcedEvent
  phase : Phase

inductive LogAction (T : Type) where
  | insert (t : T) (event : SourcedEvent)
  | commit (t : T)
  | rollback (t : T)
  | readHighWater
  | readSnapshot
  | fetch
  | applyNext

def LogAction.isConsumer {T : Type} : LogAction T → Bool
  | readHighWater | readSnapshot | fetch | applyNext => true
  | insert _ _ | commit _ | rollback _ => false

namespace Reader

def fetch (rows : EventRows) (reader : Reader) : Reader :=
  if reader.consumer.fetched = [] then { reader with consumer := reader.consumer.fetch rows } else reader

/-- Apply the next fetched row, unless it is the host's own. -/
def applyNext (handlers : HandlerRegistry) (hostId : String) (reader : Reader) : Reader where
  seen := reader.seen
  consumer := reader.consumer.applyNext handlers hostId
  applied := reader.applied ++ (reader.consumer.fetched.take 1).filter fun row => !isMyEvent hostId row.2

/-- The next query would return nothing. -/
def CaughtUp (rows : EventRows) (reader : Reader) : Prop :=
  reader.consumer.fetched = [] ∧ rows.page reader.consumer.lastSeenId fetchLimit = []

end Reader

variable {T : Type} [DecidableEq T] {handlers : HandlerRegistry} {hostId : String}

def Phase.step (handlers : HandlerRegistry) (hostId : String) (rows : EventRows) (phase : Phase)
    (action : LogAction T) : Phase :=
  match action, phase with
  | .readHighWater, .idle => .counted rows.maxId
  | .readSnapshot, .counted highWater =>
    .tailing ⟨rows.upto highWater, Consumer.load handlers hostId rows highWater, []⟩
  | .fetch, .tailing reader => .tailing (reader.fetch rows)
  | .applyNext, .tailing reader => .tailing (reader.applyNext handlers hostId)
  | _, phase => phase

def Tailing.step (handlers : HandlerRegistry) (hostId : String) (w : Tailing T) (action : LogAction T) :
    Tailing T :=
  match action with
  | .insert t event => { w with table := w.table.insert t event }
  | .commit t => { w with table := w.table.commit t }
  | .rollback t => { w with table := w.table.rollback t }
  | _ => { w with phase := w.phase.step handlers hostId w.table.rows action }

def Tailing.run (handlers : HandlerRegistry) (hostId : String) (w : Tailing T) (actions : List (LogAction T)) :
    Tailing T :=
  actions.foldl (Tailing.step handlers hostId) w

def Phase.CaughtUp (rows : EventRows) : Phase → Prop
  | .tailing reader => reader.CaughtUp rows
  | _ => False

/-- Every committed row of another host is in the snapshot or has been applied once, never both. -/
def Phase.Exact (hostId : String) (rows : EventRows) : Phase → Prop
  | .tailing reader => ∀ id event, rows[id]? = some event → isMyEvent hostId event = false →
      (reader.seen[id]? = some event ∧ reader.applied.count (id, event) = 0) ∨
        (reader.seen[id]? = none ∧ reader.applied.count (id, event) = 1)
  | _ => True

/-- The consumer can catch up from here, and however it does it has then missed nothing. -/
def Tailing.Delivers (handlers : HandlerRegistry) (hostId : String) (w : Tailing T) : Prop :=
  (∃ more : List (LogAction T), (∀ action ∈ more, action.isConsumer) ∧
    (w.run handlers hostId more).phase.CaughtUp (w.run handlers hostId more).table.rows) ∧
  ∀ more : List (LogAction T), (∀ action ∈ more, action.isConsumer) →
    (w.run handlers hostId more).phase.CaughtUp (w.run handlers hostId more).table.rows →
    (w.run handlers hostId more).phase.Exact hostId (w.run handlers hostId more).table.rows

/-- A commit brings no row of another host behind what the consumer has queried. -/
def Timely (hostId : String) (w : Tailing T) : LogAction T → Prop
  | .commit t =>
    match w.phase with
    | .tailing reader => ∀ row ∈ w.table.pending t, isMyEvent hostId row.2 = false →
        reader.consumer.frontier < row.1
    | _ => True
  | _ => True

def AllTimely (handlers : HandlerRegistry) (hostId : String) : Tailing T → List (LogAction T) → Prop
  | _, [] => True
  | w, action :: rest =>
    Timely hostId w action ∧ AllTimely handlers hostId (w.step handlers hostId action) rest

/-! ### What a reader has read, whatever commits when -/

/-- The reader's bookkeeping: what it saw, fetched and applied are rows of the table, in id order, the
applied ones up to its cursor and the fetched ones above. -/
structure Reader.Kept (hostId : String) (rows : EventRows) (reader : Reader) : Prop where
  seen : ∀ id event, reader.seen[id]? = some event →
    rows[id]? = some event ∧ id ≤ reader.consumer.lastSeenId
  fetched : ∀ row ∈ reader.consumer.fetched,
    rows[row.1]? = some row.2 ∧ reader.consumer.lastSeenId < row.1
  fetchedSorted : reader.consumer.fetched.Pairwise fun a b => a.1 < b.1
  applied : ∀ row ∈ reader.applied, rows[row.1]? = some row.2 ∧
    row.1 ≤ reader.consumer.lastSeenId ∧ reader.seen[row.1]? = none
  appliedSorted : reader.applied.Pairwise fun a b => a.1 < b.1

/-- Where each committed row of another host stands: seen, applied, fetched or ahead. -/
def Reader.Whole (hostId : String) (rows : EventRows) (reader : Reader) : Prop :=
  ∀ id event, rows[id]? = some event → isMyEvent hostId event = false →
    reader.seen[id]? = some event ∨ (id, event) ∈ reader.applied ∨
      (id, event) ∈ reader.consumer.fetched ∨ reader.consumer.frontier < id

/-- A committed row of another host that the reader has passed without reading it. -/
structure Reader.Lost (hostId : String) (rows : EventRows) (reader : Reader) (id : Nat)
    (event : SourcedEvent) : Prop where
  stored : rows[id]? = some event
  foreign : isMyEvent hostId event = false
  unseen : reader.seen[id]? = none
  unapplied : (id, event) ∉ reader.applied
  unfetched : (id, event) ∉ reader.consumer.fetched
  passed : id ≤ reader.consumer.frontier

namespace Reader

variable {rows : EventRows} {reader : Reader}

theorem kept_load (handlers : HandlerRegistry) (hostId : String) (rows : EventRows) (highWater : Nat) :
    Kept hostId rows ⟨rows.upto highWater, Consumer.load handlers hostId rows highWater, []⟩ where
  seen id event stored := by
    rw [SerialRows.get_upto] at stored
    split at stored
    · exact ⟨stored, by assumption⟩
    · cases stored
  fetched row member := nomatch member
  fetchedSorted := List.Pairwise.nil
  applied row member := nomatch member
  appliedSorted := List.Pairwise.nil

theorem kept_grow {rows' : EventRows} (kept : reader.Kept hostId rows)
    (grow : ∀ (id : Nat) (event : SourcedEvent), rows[id]? = some event → rows'[id]? = some event) :
    reader.Kept hostId rows' where
  seen id event stored := ⟨grow _ _ (kept.seen id event stored).1, (kept.seen id event stored).2⟩
  fetched row member := ⟨grow _ _ (kept.fetched row member).1, (kept.fetched row member).2⟩
  fetchedSorted := kept.fetchedSorted
  applied row member := ⟨grow _ _ (kept.applied row member).1, (kept.applied row member).2⟩
  appliedSorted := kept.appliedSorted

theorem kept_fetch (kept : reader.Kept hostId rows) : (reader.fetch rows).Kept hostId rows := by
  unfold fetch
  split
  · exact {
      seen := kept.seen
      fetched := fun _ member => SerialRows.above_of_page member
      fetchedSorted := SerialRows.sorted_page _ _ _
      applied := kept.applied
      appliedSorted := kept.appliedSorted }
  · exact kept

/-- Applying a row moves the cursor to it and the row from the fetched to the applied. -/
theorem applyNext_cons (handlers : HandlerRegistry) (hostId : String) {row : Nat × SourcedEvent}
    {rest : List (Nat × SourcedEvent)}
    (next : reader.consumer.fetched = row :: rest) :
    (reader.applyNext handlers hostId).consumer.lastSeenId = row.1 ∧
      (reader.applyNext handlers hostId).consumer.fetched = rest ∧
      (reader.applyNext handlers hostId).applied =
        if isMyEvent hostId row.2 then reader.applied else reader.applied ++ [row] := by
  unfold applyNext Consumer.applyNext
  rw [next]
  refine ⟨rfl, rfl, ?_⟩
  cases mine : isMyEvent hostId row.2 <;> simp [mine]

theorem applyNext_nil (none : reader.consumer.fetched = []) :
    reader.applyNext handlers hostId = reader := by
  unfold applyNext Consumer.applyNext
  simp [none]

theorem frontier_applyNext : (reader.applyNext handlers hostId).consumer.frontier =
    reader.consumer.frontier := by
  have drained := Consumer.drain_applyNext handlers hostId reader.consumer
  exact congrArg Consumer.lastSeenId drained

theorem kept_applyNext (kept : reader.Kept hostId rows) :
    (reader.applyNext handlers hostId).Kept hostId rows := by
  cases next : reader.consumer.fetched with
  | nil => rw [applyNext_nil next]; exact kept
  | cons row rest =>
    obtain ⟨cursor, remaining, extended⟩ := applyNext_cons handlers hostId next
    have sorted := kept.fetchedSorted
    rw [next, List.pairwise_cons] at sorted
    obtain ⟨stored, above⟩ := kept.fetched row (by simp [next])
    have moved : ∀ other ∈ reader.applied, other.1 < row.1 := fun other member =>
      Nat.lt_of_le_of_lt (kept.applied other member).2.1 above
    refine ⟨fun id event seen => ?_, fun other member => ?_, ?_, fun other member => ?_, ?_⟩
    · obtain ⟨inside, below⟩ := kept.seen id event seen
      exact ⟨inside, by rw [cursor]; omega⟩
    · rw [remaining] at member
      rw [cursor]
      exact ⟨(kept.fetched other (by simp [next, member])).1, sorted.1 other member⟩
    · rw [remaining]
      exact sorted.2
    · have place : other ∈ reader.applied ∨ other = row := by
        rw [extended] at member
        split at member
        · exact .inl member
        · simpa using member
      rw [cursor]
      rcases place with earlier | rfl
      · obtain ⟨inside, _, unseen⟩ := kept.applied other earlier
        exact ⟨inside, Nat.le_of_lt (moved other earlier), unseen⟩
      · refine ⟨stored, Nat.le_refl _, ?_⟩
        cases seen : reader.seen[other.1]? with
        | none => exact seen
        | some event => exact absurd (kept.seen _ event seen).2 (by omega)
    · rw [extended]
      split
      · exact kept.appliedSorted
      · refine List.pairwise_append.mpr ⟨kept.appliedSorted, List.pairwise_singleton _ _, ?_⟩
        intro a member b last
        rw [List.mem_singleton.mp last]
        exact moved a member

/-! ### Nothing is lost while commits are timely -/

theorem whole_load (handlers : HandlerRegistry) (hostId : String) (rows : EventRows) (highWater : Nat) :
    Whole hostId rows ⟨rows.upto highWater, Consumer.load handlers hostId rows highWater, []⟩ := by
  intro id event stored _
  by_cases early : id ≤ highWater
  · exact .inl (by rw [SerialRows.get_upto, if_pos early, stored])
  · exact .inr (.inr (.inr (Nat.lt_of_not_le early)))

theorem whole_fetch (whole : reader.Whole hostId rows) : (reader.fetch rows).Whole hostId rows := by
  unfold fetch
  split
  · rename_i empty
    intro id event stored foreign
    rcases whole id event stored foreign with seen | applied | fetched | ahead
    · exact .inl seen
    · exact .inr (.inl applied)
    · simp [empty] at fetched
    · have above : reader.consumer.lastSeenId < id := by
        simpa [Consumer.frontier, SerialRows.frontier, empty] using ahead
      refine .inr (.inr ?_)
      by_cases within : id ≤ (reader.consumer.fetch rows).frontier
      · refine .inl ?_
        change (id, event) ∈ rows.page reader.consumer.lastSeenId fetchLimit
        rw [SerialRows.page_eq_between]
        exact SerialRows.mem_between.mpr ⟨stored, above, within⟩
      · exact .inr (Nat.lt_of_not_le within)
  · exact whole

theorem whole_applyNext (whole : reader.Whole hostId rows) :
    (reader.applyNext handlers hostId).Whole hostId rows := by
  cases next : reader.consumer.fetched with
  | nil => rw [applyNext_nil next]; exact whole
  | cons row rest =>
    obtain ⟨_, remaining, extended⟩ := applyNext_cons handlers hostId next
    intro id event stored foreign
    rw [frontier_applyNext, remaining, extended]
    rcases whole id event stored foreign with seen | applied | fetched | ahead
    · exact .inl seen
    · refine .inr (.inl ?_)
      split
      · exact applied
      · exact List.mem_append_left _ applied
    · rw [next] at fetched
      rcases List.mem_cons.mp fetched with same | later
      · have notMine : ¬ isMyEvent hostId row.2 = true := by rw [← same, foreign]; simp
        rw [if_neg notMine, ← same]
        exact .inr (.inl (by simp))
      · exact .inr (.inr (.inl later))
    · exact .inr (.inr (.inr ahead))

/-- A reader that is whole and has nothing left to read is exact. -/
theorem exact_of_whole (kept : reader.Kept hostId rows) (whole : reader.Whole hostId rows)
    (caught : reader.CaughtUp rows) : Phase.Exact hostId rows (.tailing reader) := by
  intro id event stored foreign
  have nodup : reader.applied.Nodup :=
    kept.appliedSorted.imp fun {a b} less same => absurd less (by rw [same]; exact Nat.lt_irrefl _)
  have within := (SerialRows.page_eq_nil (by decide)).mp caught.2 id event stored
  rcases whole id event stored foreign with seen | applied | fetched | ahead
  · refine .inl ⟨seen, List.count_eq_zero.mpr fun applied => ?_⟩
    have unseen := (kept.applied _ applied).2.2
    rw [seen] at unseen
    cases unseen
  · exact .inr ⟨(kept.applied _ applied).2.2, List.count_eq_one_of_mem nodup applied⟩
  · simp [caught.1] at fetched
  · have behind : reader.consumer.frontier = reader.consumer.lastSeenId := by
      simp [Consumer.frontier, SerialRows.frontier, caught.1]
    omega

/-! ### What is lost stays lost -/

variable {id : Nat} {event : SourcedEvent}

theorem lost_fetch (lost : reader.Lost hostId rows id event) :
    (reader.fetch rows).Lost hostId rows id event := by
  unfold fetch
  split
  · rename_i empty
    have cursor : reader.consumer.frontier = reader.consumer.lastSeenId := by
      simp [Consumer.frontier, SerialRows.frontier, empty]
    have passed := lost.passed
    rw [cursor] at passed
    refine ⟨lost.stored, lost.foreign, lost.unseen, lost.unapplied, fun member => ?_, ?_⟩
    · have above := (SerialRows.above_of_page member).2
      exact absurd passed (Nat.not_le.mpr above)
    · exact Nat.le_trans passed Consumer.frontier_page
  · exact lost

theorem lost_applyNext (lost : reader.Lost hostId rows id event) :
    (reader.applyNext handlers hostId).Lost hostId rows id event := by
  cases next : reader.consumer.fetched with
  | nil => rw [applyNext_nil next]; exact lost
  | cons row rest =>
    obtain ⟨_, remaining, extended⟩ := applyNext_cons handlers hostId next
    have unfetched := lost.unfetched
    rw [next, List.mem_cons, not_or] at unfetched
    refine ⟨lost.stored, lost.foreign, lost.unseen, ?_, ?_, ?_⟩
    · rw [extended]
      split
      · exact lost.unapplied
      · rw [List.mem_append, List.mem_singleton, not_or]
        exact ⟨lost.unapplied, unfetched.1⟩
    · rw [remaining]
      exact unfetched.2
    · rw [frontier_applyNext]
      exact lost.passed

theorem not_exact_of_lost (lost : reader.Lost hostId rows id event) :
    ¬ Phase.Exact hostId rows (.tailing reader) := by
  intro exact
  rcases exact id event lost.stored lost.foreign with ⟨seen, _⟩ | ⟨_, once⟩
  · rw [lost.unseen] at seen
    cases seen
  · have applied : (id, event) ∈ reader.applied := List.count_pos_iff.mp (by omega)
    exact lost.unapplied applied

end Reader

/-! ### Runs -/

def Phase.Kept (hostId : String) (rows : EventRows) : Phase → Prop
  | .tailing reader => reader.Kept hostId rows
  | _ => True

def Phase.Whole (hostId : String) (rows : EventRows) : Phase → Prop
  | .tailing reader => reader.Whole hostId rows
  | _ => True

def Phase.Lost (hostId : String) (rows : EventRows) (id : Nat) (event : SourcedEvent) : Phase → Prop
  | .tailing reader => reader.Lost hostId rows id event
  | _ => False

namespace Tailing

variable {w : Tailing T}

theorem run_append (w : Tailing T) (first rest : List (LogAction T)) :
    w.run handlers hostId (first ++ rest) = (w.run handlers hostId first).run handlers hostId rest :=
  List.foldl_append

theorem kept_step (kept : w.phase.Kept hostId w.table.rows) (action : LogAction T) :
    (w.step handlers hostId action).phase.Kept hostId (w.step handlers hostId action).table.rows := by
  obtain ⟨table, phase⟩ := w
  cases action with
  | insert t event => exact kept
  | rollback t => exact kept
  | commit t =>
    cases phase with
    | tailing reader => exact Reader.kept_grow kept fun id event h => (table.get_commit t id event).mpr (.inr h)
    | idle => trivial
    | counted highWater => trivial
  | readHighWater => cases phase <;> exact kept
  | readSnapshot =>
    cases phase with
    | counted highWater => exact Reader.kept_load handlers hostId table.rows highWater
    | idle => trivial
    | tailing reader => exact kept
  | fetch =>
    cases phase with
    | tailing reader => exact Reader.kept_fetch kept
    | idle => trivial
    | counted highWater => trivial
  | applyNext =>
    cases phase with
    | tailing reader => exact Reader.kept_applyNext kept
    | idle => trivial
    | counted highWater => trivial

theorem kept_run (handlers : HandlerRegistry) (kept : w.phase.Kept hostId w.table.rows) (actions : List (LogAction T)) :
    (w.run handlers hostId actions).phase.Kept hostId (w.run handlers hostId actions).table.rows := by
  induction actions generalizing w with
  | nil => exact kept
  | cons action rest ih => exact ih (kept_step kept action)

theorem whole_step (whole : w.phase.Whole hostId w.table.rows) {action : LogAction T}
    (timely : Timely hostId w action) :
    (w.step handlers hostId action).phase.Whole hostId (w.step handlers hostId action).table.rows := by
  obtain ⟨table, phase⟩ := w
  cases action with
  | insert t event => exact whole
  | rollback t => exact whole
  | commit t =>
    cases phase with
    | tailing reader =>
      intro id event stored foreign
      rcases (table.get_commit t id event).mp stored with new | old
      · exact .inr (.inr (.inr (timely _ new foreign)))
      · exact whole id event old foreign
    | idle => trivial
    | counted highWater => trivial
  | readHighWater => cases phase <;> exact whole
  | readSnapshot =>
    cases phase with
    | counted highWater => exact Reader.whole_load handlers hostId table.rows highWater
    | idle => trivial
    | tailing reader => exact whole
  | fetch =>
    cases phase with
    | tailing reader => exact Reader.whole_fetch whole
    | idle => trivial
    | counted highWater => trivial
  | applyNext =>
    cases phase with
    | tailing reader => exact Reader.whole_applyNext whole
    | idle => trivial
    | counted highWater => trivial

theorem whole_run (handlers : HandlerRegistry) {actions : List (LogAction T)}
    (whole : w.phase.Whole hostId w.table.rows)
    (timely : AllTimely handlers hostId w actions) :
    (w.run handlers hostId actions).phase.Whole hostId (w.run handlers hostId actions).table.rows := by
  induction actions generalizing w with
  | nil => exact whole
  | cons action rest ih => exact ih (whole_step whole timely.1) timely.2

/-- The consumer's own steps are always timely. -/
theorem timely_of_consumer {actions : List (LogAction T)} (consumer : ∀ action ∈ actions, action.isConsumer) :
    AllTimely handlers hostId w actions := by
  induction actions generalizing w with
  | nil => trivial
  | cons action rest ih =>
    refine ⟨?_, ih fun a member => consumer a (List.mem_cons_of_mem _ member)⟩
    have own := consumer action List.mem_cons_self
    cases action with
    | commit t => cases own
    | _ => trivial

variable {id : Nat} {event : SourcedEvent}

theorem lost_step (lost : w.phase.Lost hostId w.table.rows id event) (action : LogAction T) :
    (w.step handlers hostId action).phase.Lost hostId (w.step handlers hostId action).table.rows id event := by
  obtain ⟨table, phase⟩ := w
  cases phase with
  | idle => cases lost
  | counted highWater => cases lost
  | tailing reader =>
    cases action with
    | commit t =>
      exact ⟨(table.get_commit t id event).mpr (.inr lost.stored), lost.foreign, lost.unseen, lost.unapplied,
        lost.unfetched, lost.passed⟩
    | fetch => exact Reader.lost_fetch lost
    | applyNext => exact Reader.lost_applyNext lost
    | _ => exact lost

theorem lost_run (handlers : HandlerRegistry) (lost : w.phase.Lost hostId w.table.rows id event)
    (actions : List (LogAction T)) :
    (w.run handlers hostId actions).phase.Lost hostId (w.run handlers hostId actions).table.rows id event := by
  induction actions generalizing w with
  | nil => exact lost
  | cons action rest ih => exact ih (lost_step lost action)

/-- A commit that is not timely loses a row. -/
theorem lost_of_untimely (handlers : HandlerRegistry) (kept : w.phase.Kept hostId w.table.rows) {action : LogAction T}
    (untimely : ¬ Timely hostId w action) :
    ∃ id event, (w.step handlers hostId action).phase.Lost hostId
      (w.step handlers hostId action).table.rows id event := by
  obtain ⟨table, phase⟩ := w
  cases action with
  | commit t =>
    cases phase with
    | tailing reader =>
      obtain ⟨row, untimely⟩ := not_forall.mp untimely
      obtain ⟨member, untimely⟩ := Classical.not_imp.mp untimely
      obtain ⟨foreign, passed⟩ := Classical.not_imp.mp untimely
      have absent := table.pending_fresh t row member
      have unread : ∀ {P : Prop}, table.rows[row.1]? = some row.2 → P := fun stored => by
        rw [absent] at stored
        cases stored
      refine ⟨row.1, row.2, (table.get_commit t _ _).mpr (.inl member), foreign, ?_, ?_, ?_,
        Nat.le_of_not_lt passed⟩
      · cases seen : reader.seen[row.1]? with
        | none => rfl
        | some event =>
          have stored := (kept.seen _ _ seen).1
          rw [absent] at stored
          cases stored
      · exact fun applied => unread (kept.applied _ applied).1
      · exact fun fetched => unread (kept.fetched _ fetched).1
    | idle => exact absurd trivial untimely
    | counted highWater => exact absurd trivial untimely
  | _ => exact absurd trivial untimely

theorem lost_of_not_timely (handlers : HandlerRegistry) {actions : List (LogAction T)}
    (kept : w.phase.Kept hostId w.table.rows)
    (untimely : ¬ AllTimely handlers hostId w actions) :
    ∃ id event, (w.run handlers hostId actions).phase.Lost hostId
      (w.run handlers hostId actions).table.rows id event := by
  induction actions generalizing w with
  | nil => exact absurd trivial untimely
  | cons action rest ih =>
    by_cases now : Timely hostId w action
    · exact ih (kept_step kept action) fun later => untimely ⟨now, later⟩
    · obtain ⟨id, event, lost⟩ := lost_of_untimely handlers kept now
      exact ⟨id, event, lost_run handlers lost rest⟩

/-- A reader left alone catches up. -/
theorem tailing_catches_up (handlers : HandlerRegistry) (n : Nat) (table : SerialTable T SourcedEvent) (reader : Reader)
    (kept : reader.Kept hostId table.rows)
    (left : table.rows.maxId - reader.consumer.lastSeenId ≤ n) :
    ∃ more : List (LogAction T), (∀ action ∈ more, action.isConsumer) ∧
      ((⟨table, .tailing reader⟩ : Tailing T).run handlers hostId more).phase.CaughtUp
        ((⟨table, .tailing reader⟩ : Tailing T).run handlers hostId more).table.rows := by
  induction n using Nat.strongRecOn generalizing reader with
  | ind n ih =>
    -- Applying a fetched row moves the cursor closer to the end of the table.
    have advance : ∀ reader' : Reader, reader'.Kept hostId table.rows →
        reader'.consumer.lastSeenId = reader.consumer.lastSeenId → reader'.consumer.fetched ≠ [] →
        ∃ more : List (LogAction T), (∀ action ∈ more, action.isConsumer) ∧
          ((⟨table, .tailing reader'⟩ : Tailing T).run handlers hostId more).phase.CaughtUp
            ((⟨table, .tailing reader'⟩ : Tailing T).run handlers hostId more).table.rows := by
      intro reader' kept' same some
      obtain ⟨row, rest, next⟩ := List.exists_cons_of_ne_nil some
      obtain ⟨cursor, _, _⟩ := Reader.applyNext_cons handlers hostId next
      obtain ⟨stored, above⟩ := kept'.fetched row (by simp [next])
      have bound := SerialRows.le_maxId stored
      obtain ⟨more, own, caught⟩ := ih (table.rows.maxId - row.1) (by omega)
        (reader'.applyNext handlers hostId) (Reader.kept_applyNext kept') (by rw [cursor])
      refine ⟨.applyNext :: more, ?_, caught⟩
      exact List.forall_mem_cons.mpr ⟨rfl, own⟩
    by_cases empty : reader.consumer.fetched = []
    · by_cases done : table.rows.page reader.consumer.lastSeenId fetchLimit = []
      · exact ⟨[], by simp, empty, done⟩
      · have fetched : reader.fetch table.rows =
            { reader with consumer := reader.consumer.fetch table.rows } := if_pos empty
        obtain ⟨more, own, caught⟩ := advance (reader.fetch table.rows) (Reader.kept_fetch kept)
          (by rw [fetched]; rfl) (by rw [fetched]; exact done)
        exact ⟨.fetch :: more, List.forall_mem_cons.mpr ⟨rfl, own⟩, caught⟩
    · exact advance reader kept rfl empty

theorem catches_up (handlers : HandlerRegistry) (kept : w.phase.Kept hostId w.table.rows) :
    ∃ more : List (LogAction T), (∀ action ∈ more, action.isConsumer) ∧
      (w.run handlers hostId more).phase.CaughtUp (w.run handlers hostId more).table.rows := by
  obtain ⟨table, phase⟩ := w
  have counted : ∀ highWater, ∃ more : List (LogAction T), (∀ action ∈ more, action.isConsumer) ∧
      ((⟨table, .counted highWater⟩ : Tailing T).run handlers hostId more).phase.CaughtUp
        ((⟨table, .counted highWater⟩ : Tailing T).run handlers hostId more).table.rows := by
    intro highWater
    obtain ⟨more, own, caught⟩ := tailing_catches_up handlers _ table _
      (Reader.kept_load handlers hostId table.rows highWater) (Nat.le_refl _)
    exact ⟨.readSnapshot :: more, List.forall_mem_cons.mpr ⟨rfl, own⟩, caught⟩
  cases phase with
  | idle =>
    obtain ⟨more, own, caught⟩ := counted table.rows.maxId
    exact ⟨.readHighWater :: more, List.forall_mem_cons.mpr ⟨rfl, own⟩, caught⟩
  | counted highWater => exact counted highWater
  | tailing reader => exact tailing_catches_up handlers _ table reader kept (Nat.le_refl _)

theorem timely_of_delivers (table : SerialTable T SourcedEvent) (actions : List (LogAction T))
    (delivers : ((⟨table, .idle⟩ : Tailing T).run handlers hostId actions).Delivers handlers hostId) :
    AllTimely handlers hostId ⟨table, .idle⟩ actions := by
  obtain ⟨⟨more, own, caught⟩, exact⟩ := delivers
  by_contra untimely
  obtain ⟨id, event, lost⟩ := lost_of_not_timely handlers (w := ⟨table, .idle⟩) trivial untimely
  have still := lost_run handlers lost more
  have missed := exact more own caught
  cases phase : (((⟨table, .idle⟩ : Tailing T).run handlers hostId actions).run handlers hostId more).phase with
  | tailing reader =>
    rw [phase] at still missed
    exact Reader.not_exact_of_lost still missed
  | idle => rw [phase] at still; cases still
  | counted highWater => rw [phase] at still; cases still

theorem delivers_of_timely {table : SerialTable T SourcedEvent} {actions : List (LogAction T)}
    (timely : AllTimely handlers hostId ⟨table, .idle⟩ actions) :
    ((⟨table, .idle⟩ : Tailing T).run handlers hostId actions).Delivers handlers hostId := by
  have start : (⟨table, .idle⟩ : Tailing T).phase.Kept hostId table.rows := trivial
  have kept := kept_run handlers (w := ⟨table, .idle⟩) start actions
  have whole := whole_run handlers (w := ⟨table, .idle⟩) trivial timely
  refine ⟨catches_up handlers kept, fun more own caught => ?_⟩
  have wholeMore := whole_run handlers whole (timely_of_consumer own)
  have keptMore := kept_run handlers kept more
  cases phase : (((⟨table, .idle⟩ : Tailing T).run handlers hostId actions).run handlers hostId more).phase with
  | tailing reader =>
    rw [phase] at wholeMore keptMore caught
    exact Reader.exact_of_whole keptMore wholeMore caught
  | idle => trivial
  | counted highWater => trivial

/-- A consumer misses nothing exactly when every commit of the run is timely. -/
theorem delivers_iff (handlers : HandlerRegistry) (hostId : String) (table : SerialTable T SourcedEvent)
    (actions : List (LogAction T)) :
    ((⟨table, .idle⟩ : Tailing T).run handlers hostId actions).Delivers handlers hostId ↔
      AllTimely handlers hostId ⟨table, .idle⟩ actions :=
  ⟨timely_of_delivers table actions, delivers_of_timely⟩

end Tailing
end Myko.Postgres

namespace Myko.Sample

open Postgres

/-- Two transactions of another host, the later one committing first. -/
def crossedCommits : List (LogAction Bool) :=
  [.readHighWater, .readSnapshot, .insert false written, .insert true written, .commit true, .fetch, .applyNext,
    .commit false]

/-- The row that commits behind the cursor is never read. -/
theorem not_delivers : ¬ ((⟨SerialTable.empty, .idle⟩ : Tailing Bool).run handlers "reader"
    crossedCommits).Delivers handlers "reader" := by
  intro delivers
  have timely := Tailing.timely_of_delivers SerialTable.empty crossedCommits delivers
  have late := timely.2.2.2.2.2.2.2.1
  exact absurd (late (1, written) (by decide) (by decide)) (by decide)

end Myko.Sample
