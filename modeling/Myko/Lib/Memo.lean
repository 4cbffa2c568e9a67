import Mathlib.Logic.Function.Basic

/-!
Programs that ask about the request they run under and call one another, with the results of calls kept under keys.
A call whose key has a result is not run again, whoever has asked for it.
-/

namespace Memo

variable {Q A C V R K : Type}

inductive Program (Q A C V : Type) where
  | ret (value : V)
  | ask (question : Q) (next : A → Program Q A C V)
  | call (callee : C) (next : V → Program Q A C V)

namespace Program

/-- A question that the program itself may ask, whatever it is told on the way. -/
inductive Asks (question : Q) : Program Q A C V → Prop where
  | here {next : A → Program Q A C V} : Asks question (.ask question next)
  | answered {other : Q} {next : A → Program Q A C V} (answer : A) (later : Asks question (next answer)) :
    Asks question (.ask other next)
  | returned {callee : C} {next : V → Program Q A C V} (value : V) (later : Asks question (next value)) :
    Asks question (.call callee next)

/-- A call that the program itself may make. -/
inductive Calls (callee : C) : Program Q A C V → Prop where
  | here {next : V → Program Q A C V} : Calls callee (.call callee next)
  | answered {question : Q} {next : A → Program Q A C V} (answer : A) (later : Calls callee (next answer)) :
    Calls callee (.ask question next)
  | returned {other : C} {next : V → Program Q A C V} (value : V) (later : Calls callee (next value)) :
    Calls callee (.call other next)

end Program

section
variable (body : C → Program Q A C V) (answer : R → Q → A)

/-- The value of a program that runs everything it calls. -/
inductive Fresh (request : R) : Program Q A C V → V → Prop where
  | ret (value : V) : Fresh request (.ret value) value
  | ask {question : Q} {next : A → Program Q A C V} {value : V}
    (later : Fresh request (next (answer request question)) value) : Fresh request (.ask question next) value
  | call {callee : C} {next : V → Program Q A C V} {result value : V} (inner : Fresh request (body callee) result)
    (later : Fresh request (next result) value) : Fresh request (.call callee next) value

theorem Fresh.unique {body : C → Program Q A C V} {answer : R → Q → A} {request : R} {program : Program Q A C V}
    {value other : V} (fresh : Fresh body answer request program value)
    (again : Fresh body answer request program other) : value = other := by
  induction fresh generalizing other with
  | ret value =>
    cases again
    rfl
  | ask later ih =>
    cases again with
    | ask later' => exact ih later'
  | call inner later ih ih' =>
    cases again with
    | call inner' later' =>
      cases ih inner'
      exact ih' later'

/-- Of calls that only make such calls, requests they cannot tell apart have the same values. -/
theorem Fresh.congr {body : C → Program Q A C V} {answer : R → Q → A} {request other : R} {among : C → Prop}
    (closed : ∀ callee, among callee → ∀ inner, (body callee).Calls inner → among inner)
    (same : ∀ callee, among callee → ∀ question, (body callee).Asks question →
      answer request question = answer other question)
    {program : Program Q A C V} {value : V} (fresh : Fresh body answer request program value)
    (within : ∀ inner, program.Calls inner → among inner)
    (alike : ∀ question, program.Asks question → answer request question = answer other question) :
    Fresh body answer other program value := by
  induction fresh with
  | ret value => exact .ret value
  | ask later ih =>
    refine .ask ?_
    rw [← alike _ .here]
    exact ih (fun inner calls => within inner (.answered _ calls)) fun question asks =>
      alike question (.answered _ asks)
  | call inner later ih ih' =>
    have member := within _ .here
    exact .call (ih (closed _ member) (same _ member))
      (ih' (fun inner calls => within inner (.returned _ calls)) fun question asks =>
        alike question (.returned _ asks))

variable (key : R → C → K) [DecidableEq K]

/-- The value of a program that takes the results of its calls from a cache, and leaves them in it. A result that
nobody holds any more may go at any time. -/
inductive Cached (request : R) : (K → Option V) → Program Q A C V → V → (K → Option V) → Prop where
  | ret {cache : K → Option V} (value : V) : Cached request cache (.ret value) value cache
  | ask {cache after : K → Option V} {question : Q} {next : A → Program Q A C V} {value : V}
    (later : Cached request cache (next (answer request question)) value after) :
    Cached request cache (.ask question next) value after
  | hit {cache after : K → Option V} {callee : C} {next : V → Program Q A C V} {result value : V}
    (found : cache (key request callee) = some result) (later : Cached request cache (next result) value after) :
    Cached request cache (.call callee next) value after
  | miss {cache between after : K → Option V} {callee : C} {next : V → Program Q A C V} {result value : V}
    (missing : cache (key request callee) = none) (inner : Cached request cache (body callee) result between)
    (later : Cached request (Function.update between (key request callee) (some result)) (next result) value after) :
    Cached request cache (.call callee next) value after
  | dropped {cache after : K → Option V} {program : Program Q A C V} {value : V} (gone : K)
    (later : Cached request (Function.update cache gone none) program value after) :
    Cached request cache program value after

/-- The caches that requests may have left, one after another. -/
inductive Reachable : (K → Option V) → Prop where
  | empty : Reachable fun _ => none
  | ran {cache after : K → Option V} {request : R} {program : Program Q A C V} {value : V}
    (before : Reachable cache) (run : Cached body answer key request cache program value after) : Reachable after
  | dropped {cache : K → Option V} (before : Reachable cache) (gone : K) :
    Reachable (Function.update cache gone none)

/-- For some requests, what the cache has is what a call would give. -/
def Sound (among : R → Prop) (cache : K → Option V) : Prop :=
  ∀ request, among request → ∀ callee result, cache (key request callee) = some result →
    Fresh body answer request (body callee) result

end

section
variable {body : C → Program Q A C V} {answer : R → Q → A} {key : R → C → K} [DecidableEq K] {among : R → Prop}
  {cache after : K → Option V} {request : R} {program : Program Q A C V} {value : V}

omit [DecidableEq K] in
theorem Sound.empty : Sound body answer key among fun _ => none := by
  intro request _ callee result found
  cases found

theorem Sound.drop (sound : Sound body answer key among cache) (gone : K) :
    Sound body answer key among (Function.update cache gone none) := by
  intro request member callee result found
  by_cases here : key request callee = gone
  · rw [here, Function.update_self] at found
    cases found
  · rw [Function.update_of_ne here] at found
    exact sound request member callee result found

/-- The requests whose keys agree get the same from every call. -/
def Agree (body : C → Program Q A C V) (answer : R → Q → A) (key : R → C → K) (among : R → Prop) : Prop :=
  ∀ request, among request → ∀ other, among other → ∀ callee callee', key request callee = key other callee' →
    ∀ result, Fresh body answer request (body callee) result → Fresh body answer other (body callee') result

theorem Sound.store (agree : Agree body answer key among) (sound : Sound body answer key among cache)
    (member : among request) {callee : C} {result : V} (fresh : Fresh body answer request (body callee) result) :
    Sound body answer key among (Function.update cache (key request callee) (some result)) := by
  intro other member' callee' result' found
  by_cases here : key other callee' = key request callee
  · rw [here, Function.update_self] at found
    cases found
    exact agree request member other member' callee callee' here.symm result fresh
  · rw [Function.update_of_ne here] at found
    exact sound other member' callee' result' found

/-- From a sound cache a program has its own value, and leaves the cache sound. -/
theorem Cached.fresh (agree : Agree body answer key among) (member : among request)
    (run : Cached body answer key request cache program value after) (sound : Sound body answer key among cache) :
    Fresh body answer request program value ∧ Sound body answer key among after := by
  induction run with
  | ret value => exact ⟨.ret value, sound⟩
  | ask later ih =>
    obtain ⟨fresh, kept⟩ := ih sound
    exact ⟨.ask fresh, kept⟩
  | hit found later ih =>
    obtain ⟨fresh, kept⟩ := ih sound
    exact ⟨.call (sound request member _ _ found) fresh, kept⟩
  | miss missing inner later ih ih' =>
    obtain ⟨inside, between⟩ := ih sound
    obtain ⟨fresh, kept⟩ := ih' (between.store agree member inside)
    exact ⟨.call inside fresh, kept⟩
  | dropped gone later ih => exact ih (sound.drop gone)

/-- A program that has a value has it from a sound cache as well. -/
theorem Fresh.cached (agree : Agree body answer key among) (member : among request)
    (fresh : Fresh body answer request program value) (sound : Sound body answer key among cache) :
    ∃ after, Cached body answer key request cache program value after ∧ Sound body answer key among after := by
  induction fresh generalizing cache with
  | ret value => exact ⟨cache, .ret value, sound⟩
  | ask later ih =>
    obtain ⟨after, run, kept⟩ := ih sound
    exact ⟨after, .ask run, kept⟩
  | @call callee next result value inner later ih ih' =>
    cases found : cache (key request callee) with
    | some result' =>
      cases (sound request member callee result' found).unique inner
      obtain ⟨after, run, kept⟩ := ih' sound
      exact ⟨after, .hit found run, kept⟩
    | none =>
      obtain ⟨between, inside, held⟩ := ih sound
      obtain ⟨after, run, kept⟩ := ih' (held.store agree member inner)
      exact ⟨after, .miss found inside run, kept⟩

theorem Reachable.sound (agree : Agree body answer key fun _ => True) (reached : Reachable body answer key cache) :
    Sound body answer key (fun _ => True) cache := by
  induction reached with
  | empty => exact Sound.empty
  | ran before run ih => exact (run.fresh agree trivial ih).2
  | dropped before gone ih => exact ih.drop gone

theorem cached_iff_fresh (agree : Agree body answer key fun _ => True) (reached : Reachable body answer key cache) :
    (∃ after, Cached body answer key request cache program value after) ↔
      Fresh body answer request program value := by
  constructor
  · rintro ⟨after, run⟩
    exact (run.fresh agree trivial (reached.sound agree)).1
  · intro fresh
    obtain ⟨after, run, -⟩ := fresh.cached agree trivial (reached.sound agree)
    exact ⟨after, run⟩

/-- After a request the next one with that key gets its result, if no two calls have the same key. -/
theorem Fresh.served (separate : ∀ request other callee callee', key request callee = key other callee' →
      callee = callee') {callee : C} (fresh : Fresh body answer request (body callee) value) {other : R}
    (same : key request callee = key other callee) :
    ∃ cache, Reachable body answer key cache ∧
      Cached body answer key other cache (.call callee .ret) value cache := by
  -- one request on its own agrees with itself
  have agree : Agree body answer key (· = request) := by
    rintro _ rfl _ rfl callee callee' keys result fresh
    rwa [← separate _ _ _ _ keys]
  obtain ⟨between, inner, -⟩ := fresh.cached agree rfl Sound.empty
  have asked : Cached body answer key request (fun _ => none) (.call callee .ret) value _ :=
    .miss rfl inner (.ret value)
  refine ⟨_, .ran .empty asked, .hit ?_ (.ret value)⟩
  rw [← same, Function.update_self]

/-- Requests get what their calls give, whatever has been asked for before, just when requests whose keys agree get
the same. -/
theorem served_fresh_iff (separate : ∀ request other callee callee', key request callee = key other callee' →
    callee = callee') :
    (∀ cache, Reachable body answer key cache → ∀ callee request value,
      (∃ after, Cached body answer key request cache (.call callee .ret) value after) ↔
        Fresh body answer request (body callee) value) ↔
    ∀ callee request other, key request callee = key other callee → ∀ value,
      Fresh body answer request (body callee) value → Fresh body answer other (body callee) value := by
  constructor
  · intro served callee request other same value fresh
    obtain ⟨cache, reached, run⟩ := fresh.served separate same
    exact (served cache reached callee other value).mp ⟨cache, run⟩
  · intro agree cache reached callee request value
    have agreed : Agree body answer key fun _ => True := by
      intro request _ other _ callee callee' keys result fresh
      obtain rfl := separate _ _ _ _ keys
      exact agree callee request other keys result fresh
    rw [cached_iff_fresh agreed reached]
    constructor
    · intro fresh
      cases fresh with
      | call inner later =>
        cases later
        exact inner
    · exact fun fresh => .call fresh (.ret value)

end

end Memo
