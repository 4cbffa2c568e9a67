import Mathlib.Data.List.Basic
import Mathlib.Data.UInt
import Myko.Lib.Memo

/-!
The caches of query, view and report results. The key of a result leaves out parts of the request under which it was
built, and handlers pass their request on to the handlers they use.
-/

namespace Myko.ResultCache
open Memo

/-- A text without a colon: the parts of a key stand between colons. -/
abbrev KeyPart := { text : String // ':' ∉ text.toList }

/-- What handlers can read of the request they run under. -/
structure RequestContext where
  clientId : Option String
  hostId : KeyPart
  windback : Option String

inductive RequestPart where
  | clientId
  | hostId
  | windback

def RequestContext.read (request : RequestContext) : RequestPart → Option String
  | .clientId => request.clientId
  | .hostId => some request.hostId.val
  | .windback => request.windback

inductive RequestCacheScope where
  | shared
  | perClient
  deriving DecidableEq

inductive HandlerKind where
  | query
  | view
  | report
  deriving DecidableEq

namespace HandlerKind

def label : HandlerKind → String
  | query => "query"
  | view => "view"
  | report => "report"

end HandlerKind

def hexDigit (digit : Nat) : Char := if digit < 10 then Char.ofNat (48 + digit) else Char.ofNat (87 + digit)

/-- The last digits of a number. -/
def hexDigits : Nat → Nat → List Char
  | 0, _ => []
  | width + 1, value => hexDigits width (value / 16) ++ [hexDigit (value % 16)]

def cacheKeyWithScope (kind id : String) (payloadHash : UInt64) (request : RequestContext)
    (scope : RequestCacheScope) : String :=
  let base := request.hostId.val ++ ":" ++ kind ++ ":" ++ id ++ ":" ++ String.ofList (hexDigits 16 payloadHash.toNat)
  match scope with
  | .shared => base
  | .perClient =>
    match request.clientId with
    | none => base ++ ":request-server"
    | some clientId => base ++ ":request-client:" ++ clientId

def cacheKey (kind id : String) (payloadHash : UInt64) (request : RequestContext) : String :=
  cacheKeyWithScope kind id payloadHash request .shared

/-- A handler by its registered name, with its parameters. -/
structure Call (Payload : Type) where
  kind : HandlerKind
  id : KeyPart
  payload : Payload

abbrev HandlerBody (Payload Result : Type) := Program RequestPart (Option String) (Call Payload) Result

/-- What is registered. The names are those of types. -/
structure Handlers (Payload Result : Type) where
  requestCacheScope : HandlerKind → KeyPart → RequestCacheScope
  cacheKeyHash : Payload → UInt64
  body : Call Payload → HandlerBody Payload Result

namespace Handlers

variable {Payload Result : Type} (handlers : Handlers Payload Result)

/-- Queries have no scope of their own. -/
def scope (call : Call Payload) : RequestCacheScope :=
  match call.kind with
  | .query => .shared
  | kind => handlers.requestCacheScope kind call.id

/-- Each kind has a cache of its own. -/
def key (request : RequestContext) (call : Call Payload) : HandlerKind × String :=
  (call.kind, match call.kind with
    | .query => cacheKey call.kind.label call.id.val (handlers.cacheKeyHash call.payload) request
    | kind => cacheKeyWithScope call.kind.label call.id.val (handlers.cacheKeyHash call.payload) request
        (handlers.requestCacheScope kind call.id))

abbrev Caches (Result : Type) := HandlerKind × String → Option Result

/-- The caches after requests one after another. -/
abbrev Reached (caches : Caches Result) : Prop :=
  Reachable handlers.body RequestContext.read handlers.key caches

/-- What a request gets that looks into the caches first. -/
def Serves (caches : Caches Result) (call : Call Payload) (request : RequestContext) (result : Result) : Prop :=
  ∃ after, Cached handlers.body RequestContext.read handlers.key request caches (.call call .ret) result after

/-- What a subscription gets that builds its query or view itself. -/
def Builds (caches : Caches Result) (call : Call Payload) (request : RequestContext) (result : Result) : Prop :=
  ∃ after, Cached handlers.body RequestContext.read handlers.key request caches (handlers.body call) result after

/-- What the call gives under this request when nothing is cached. -/
abbrev Afresh (call : Call Payload) (request : RequestContext) (result : Result) : Prop :=
  Fresh handlers.body RequestContext.read request (handlers.body call) result

/-- Views and reports that read the client themselves have a result for each client. -/
def DeclaresPerClient : Prop :=
  ∀ call, call.kind ≠ .query → (handlers.body call).Asks .clientId → handlers.scope call = .perClient

/-- No result, with all that goes into it, depends on the windback, nor on the client unless there is one for each
client. -/
def CallerFree : Prop :=
  ∀ call (request other : RequestContext), request.hostId = other.hostId →
    (handlers.scope call = .perClient → request.clientId = other.clientId) →
    ∀ result, handlers.Afresh call request result → handlers.Afresh call other result

end Handlers

/-! ### What a key tells -/

theorem colon_inj {first other rest rest' : List Char} (plain : ':' ∉ first) (plain' : ':' ∉ other)
    (same : first ++ ':' :: rest = other ++ ':' :: rest') : first = other ∧ rest = rest' := by
  induction first generalizing other with
  | nil =>
    cases other with
    | nil => exact ⟨rfl, (List.cons.inj same).2⟩
    | cons char other => exact absurd (List.cons.inj same).1 fun here => plain' (here ▸ List.mem_cons_self)
  | cons char first ih =>
    cases other with
    | nil => exact absurd (List.cons.inj same).1 fun here => plain (here ▸ List.mem_cons_self)
    | cons char' other =>
      obtain ⟨head, tail⟩ := List.cons.inj same
      obtain ⟨later, rest⟩ := ih (List.not_mem_of_not_mem_cons plain) (List.not_mem_of_not_mem_cons plain') tail
      exact ⟨by rw [head, later], rest⟩

theorem length_hexDigits (width value : Nat) : (hexDigits width value).length = width := by
  induction width generalizing value with
  | zero => rfl
  | succ width ih => rw [hexDigits, List.length_append, ih, List.length_singleton]

theorem hexDigit_inj : ∀ digit other : Fin 16, hexDigit digit = hexDigit other → digit = other := by
  decide

theorem hexDigits_inj {width value other : Nat} (small : value < 16 ^ width) (small' : other < 16 ^ width)
    (same : hexDigits width value = hexDigits width other) : value = other := by
  induction width generalizing value other with
  | zero => omega
  | succ width ih =>
    unfold hexDigits at same
    obtain ⟨front, last⟩ := List.append_inj same (by rw [length_hexDigits, length_hexDigits])
    have upper := ih (by omega) (by omega) front
    have lower := hexDigit_inj ⟨value % 16, by omega⟩ ⟨other % 16, by omega⟩ (List.cons.inj last).1
    have lower : value % 16 = other % 16 := congrArg Fin.val lower
    omega

theorem label_inj : ∀ kind other : HandlerKind, kind.label = other.label → kind = other := by
  intro kind other
  cases kind <;> cases other <;> decide

theorem colon_label (kind : HandlerKind) : ':' ∉ kind.label.toList := by
  cases kind <;> decide

/-- What the scope adds to a key. -/
def scopeSuffix (request : RequestContext) : RequestCacheScope → List Char
  | .shared => []
  | .perClient =>
    match request.clientId with
    | none => ":request-server".toList
    | some clientId => ":request-client:".toList ++ clientId.toList

theorem toList_cacheKeyWithScope (kind id : String) (payloadHash : UInt64) (request : RequestContext)
    (scope : RequestCacheScope) :
    (cacheKeyWithScope kind id payloadHash request scope).toList =
      request.hostId.val.toList ++ ':' :: (kind.toList ++ ':' :: (id.toList ++ ':' ::
        (hexDigits 16 payloadHash.toNat ++ scopeSuffix request scope))) := by
  unfold cacheKeyWithScope scopeSuffix
  cases scope with
  | shared => simp
  | perClient => cases request.clientId <;> simp

theorem scopeSuffix_inj {request other : RequestContext}
    (same : scopeSuffix request .perClient = scopeSuffix other .perClient) : request.clientId = other.clientId := by
  unfold scopeSuffix at same
  cases mine : request.clientId with
  | none =>
    cases theirs : other.clientId with
    | none => rfl
    | some clientId =>
      rw [mine, theirs] at same
      simp at same
  | some clientId =>
    cases theirs : other.clientId with
    | none =>
      rw [mine, theirs] at same
      simp at same
    | some clientId' =>
      rw [mine, theirs] at same
      rw [String.toList_inj.mp (List.append_cancel_left same)]

section
variable {Payload Result : Type} {handlers : Handlers Payload Result} {request other : RequestContext}
  {call : Call Payload}

theorem Handlers.toList_key :
    (handlers.key request call).2.toList =
      request.hostId.val.toList ++ ':' :: (call.kind.label.toList ++ ':' :: (call.id.val.toList ++ ':' ::
        (hexDigits 16 (handlers.cacheKeyHash call.payload).toNat ++ scopeSuffix request (handlers.scope call)))) := by
  obtain ⟨kind, id, payload⟩ := call
  cases kind <;> exact toList_cacheKeyWithScope _ _ _ _ _

/-- Keys are the same for the same call on the same host, and for one client where the scope is per client. -/
theorem Handlers.key_inj (noCollisions : Function.Injective handlers.cacheKeyHash) {call' : Call Payload}
    (same : handlers.key request call = handlers.key other call') :
    call = call' ∧ request.hostId = other.hostId ∧
      (handlers.scope call = .perClient → request.clientId = other.clientId) := by
  have texts : (handlers.key request call).2.toList = (handlers.key other call').2.toList := by rw [same]
  rw [Handlers.toList_key, Handlers.toList_key] at texts
  obtain ⟨host, texts⟩ := colon_inj request.hostId.property other.hostId.property texts
  obtain ⟨kind, texts⟩ := colon_inj (colon_label _) (colon_label _) texts
  obtain ⟨id, texts⟩ := colon_inj call.id.property call'.id.property texts
  obtain ⟨hash, suffix⟩ := List.append_inj texts (by rw [length_hexDigits, length_hexDigits])
  have payload : call.payload = call'.payload :=
    noCollisions (UInt64.toNat_inj.mp (hexDigits_inj (UInt64.toNat_lt _) (UInt64.toNat_lt _) hash))
  have same_call : call = call' := by
    obtain ⟨_, _, _⟩ := call
    obtain ⟨_, _, _⟩ := call'
    cases label_inj _ _ (String.toList_inj.mp kind)
    cases Subtype.ext (String.toList_inj.mp id)
    cases payload
    rfl
  refine ⟨same_call, Subtype.ext (String.toList_inj.mp host), fun perClient => ?_⟩
  rw [← same_call, perClient] at suffix
  exact scopeSuffix_inj suffix

theorem Handlers.key_congr (host : request.hostId = other.hostId)
    (client : handlers.scope call = .perClient → request.clientId = other.clientId) :
    handlers.key request call = handlers.key other call := by
  refine Prod.ext rfl (String.toList_inj.mp ?_)
  rw [Handlers.toList_key, Handlers.toList_key, host]
  cases scope : handlers.scope call with
  | shared => rfl
  | perClient =>
    unfold scopeSuffix
    rw [client scope]

/-- The caller cannot be told where only handlers with a result for each client read the client, no handler that
shares its result uses one of them, and none reads the windback. -/
theorem Handlers.callerFree_of_unread
    (windback : ∀ call, ¬(handlers.body call).Asks .windback)
    (client : ∀ call, (handlers.body call).Asks .clientId → handlers.scope call = .perClient)
    (sharing : ∀ call inner, handlers.scope call = .shared → (handlers.body call).Calls inner →
      handlers.scope inner = .shared) : handlers.CallerFree := by
  intro call request other host own result fresh
  have told : ∀ part, (part = .clientId → request.clientId = other.clientId) → part ≠ .windback →
      request.read part = other.read part := by
    intro part client known
    cases part with
    | clientId => exact client rfl
    | hostId =>
      unfold RequestContext.read
      rw [host]
    | windback => exact absurd rfl known
  cases scope : handlers.scope call with
  | perClient =>
    have alike : ∀ callee question, (handlers.body callee).Asks question →
        request.read question = other.read question := by
      intro callee question asks
      refine told question (fun _ => own scope) fun back => ?_
      rw [back] at asks
      exact windback callee asks
    exact fresh.congr (fun _ _ _ _ => trivial) (fun callee _ => alike callee) (fun _ _ => trivial) (alike call)
  | shared =>
    have alike : ∀ callee, handlers.scope callee = .shared → ∀ question, (handlers.body callee).Asks question →
        request.read question = other.read question := by
      intro callee shared question asks
      refine told question (fun reads => ?_) fun back => ?_
      · rw [reads] at asks
        have perClient := client callee asks
        rw [shared] at perClient
        cases perClient
      · rw [back] at asks
        exact windback callee asks
    exact fresh.congr (fun callee shared inner calls => sharing callee inner shared calls) alike
      (fun inner calls => sharing call inner scope calls) (alike call scope)

/-- What callers get, through the caches or by building it themselves, is what they would get on their own, and so
does not tell what others have asked for, just when no result depends on a caller its key leaves out. -/
theorem cached_results_exact_iff (handlers : Handlers Payload Result)
    (noCollisions : Function.Injective handlers.cacheKeyHash) :
    ((∀ caches, handlers.Reached caches → ∀ call request result,
        (handlers.Serves caches call request result ↔ handlers.Afresh call request result) ∧
        (handlers.Builds caches call request result ↔ handlers.Afresh call request result)) ∧
      ∀ caches caches', handlers.Reached caches → handlers.Reached caches' → ∀ call request result,
        handlers.Serves caches call request result → handlers.Serves caches' call request result) ↔
    handlers.CallerFree := by
  have separate : ∀ (request other : RequestContext) (call call' : Call Payload),
      handlers.key request call = handlers.key other call' → call = call' :=
    fun _ _ _ _ same => (Handlers.key_inj noCollisions same).1
  have served := @served_fresh_iff _ _ _ _ _ _ handlers.body RequestContext.read handlers.key _ separate
  constructor
  · rintro ⟨exact', -⟩ call request other host client result fresh
    exact served.mp (fun caches reached call request result => (exact' caches reached call request result).1)
      call request other (Handlers.key_congr host client) result fresh
  · intro free
    have agree : Agree handlers.body RequestContext.read handlers.key fun _ => True := by
      intro request _ other _ call call' same result fresh
      obtain ⟨rfl, host, client⟩ := Handlers.key_inj noCollisions same
      exact free call request other host client result fresh
    have serves : ∀ caches, handlers.Reached caches → ∀ call request result,
        (handlers.Serves caches call request result ↔ handlers.Afresh call request result) := by
      refine served.mpr fun call request other same result fresh => ?_
      exact agree request trivial other trivial call call same result fresh
    refine ⟨fun caches reached call request result => ⟨serves caches reached call request result, ?_⟩, ?_⟩
    · exact cached_iff_fresh agree reached
    · intro caches caches' reached reached' call request result got
      exact (serves caches' reached' call request result).mpr ((serves caches reached call request result).mp got)

end

/-! ### A report that uses a report of the caller -/

namespace Sample

def host : KeyPart := ⟨"host", by decide⟩

def name (text : String) (plain : ':' ∉ text.toList) : KeyPart := ⟨text, plain⟩

def whoAmI : Call Unit := ⟨.report, name "WhoAmI" (by decide), ()⟩

def summary : Call Unit := ⟨.report, name "Summary" (by decide), ()⟩

/-- `WhoAmI` reads the client and has a result for each; `Summary` shows what `WhoAmI` gives. -/
def handlers : Handlers Unit (Option String) where
  requestCacheScope _ id := if id.val = "WhoAmI" then .perClient else .shared
  cacheKeyHash _ := 0
  body call :=
    if call.kind ≠ .report then .ret none
    else if call.id.val = "WhoAmI" then .ask .clientId .ret
    else .call whoAmI .ret

def requestOf (client : String) : RequestContext := ⟨some client, host, none⟩

theorem body_whoAmI : handlers.body whoAmI = .ask .clientId .ret := rfl

theorem body_summary : handlers.body summary = .call whoAmI .ret := rfl

theorem afresh_summary (client : String) : handlers.Afresh summary (requestOf client) (some client) := by
  show Fresh _ _ _ (handlers.body summary) _
  rw [body_summary]
  refine .call ?_ (.ret _)
  rw [body_whoAmI]
  exact .ask (.ret _)

/-- A report that only uses the report of the caller is shared, and shows the second caller the first one. -/
theorem second_caller_is_shown_the_first :
    handlers.DeclaresPerClient ∧ Function.Injective handlers.cacheKeyHash ∧
    ∃ caches, handlers.Reached caches ∧
      handlers.Serves caches summary (requestOf "b") (some "a") ∧
      handlers.Afresh summary (requestOf "b") (some "b") ∧
      ¬handlers.Afresh summary (requestOf "b") (some "a") := by
  have same : handlers.key (requestOf "a") summary = handlers.key (requestOf "b") summary := by
    refine Handlers.key_congr rfl fun perClient => ?_
    have shared : handlers.scope summary = .shared := by decide
    rw [shared] at perClient
    cases perClient
  have separate : ∀ (request other : RequestContext) (call call' : Call Unit),
      handlers.key request call = handlers.key other call' → call = call' :=
    fun _ _ _ _ keys => (Handlers.key_inj (fun _ _ _ => rfl) keys).1
  obtain ⟨caches, reached, got⟩ := (afresh_summary "a").served separate same
  refine ⟨?_, fun _ _ _ => rfl, caches, reached, ⟨caches, got⟩, afresh_summary "b", fun first => ?_⟩
  · intro call kind asks
    unfold handlers at asks
    dsimp only at asks
    split at asks
    · cases asks
    · rename_i report
      split at asks
      · rename_i own
        unfold Handlers.scope handlers
        rw [not_not.mp report]
        exact if_pos own
      · cases asks with
        | returned value later => cases later
  · have names : some "a" = some "b" := first.unique (afresh_summary "b")
    exact absurd names (by decide)

/-- The same, with a result for each client of either. -/
def declared : Handlers Unit (Option String) := { handlers with requestCacheScope := fun _ _ => .perClient }

theorem declared_callerFree : declared.CallerFree := by
  have perClient : ∀ call, call.kind = .report → declared.scope call = .perClient := by
    intro call report
    unfold Handlers.scope
    rw [report]
    rfl
  refine Handlers.callerFree_of_unread (fun call asks => ?_) (fun call asks => ?_) fun call inner shared calls => ?_
  all_goals unfold declared handlers at *; dsimp only at *
  · split at asks
    · cases asks
    · split at asks
      · cases asks with
        | answered answer later => cases later
      · cases asks with
        | returned value later => cases later
  · split at asks
    · cases asks
    · rename_i report
      exact perClient call (not_not.mp report)
  · split at calls
    · cases calls
    · rename_i report
      cases shared.symm.trans (perClient call (not_not.mp report))

theorem summary_of_each_client :
    declared.Serves (fun _ => none) summary (requestOf "b") (some "b") ∧
      ¬declared.Serves (fun _ => none) summary (requestOf "b") (some "a") := by
  obtain ⟨same, -⟩ := (cached_results_exact_iff declared fun _ _ _ => rfl).mpr declared_callerFree
  have own : declared.Afresh summary (requestOf "b") (some "b") := afresh_summary "b"
  refine ⟨(same _ .empty summary _ _).1.mpr own, fun served => ?_⟩
  have names : some "a" = some "b" := ((same _ .empty summary _ _).1.mp served).unique own
  exact absurd names (by decide)

end Sample
end Myko.ResultCache
