import Myko.Item

/-!
Events as they come over the wire, and what the server makes of a client's before it applies them: it strips
NUL characters and fills in the fields it assigns itself.
-/

namespace Myko

/-- JSON. The entries of an object stand in key order. -/
inductive Value where
  | null
  | bool (value : Bool)
  | number (literal : String)
  | string (value : String)
  | array (items : List Value)
  | object (entries : List (String × Value))

def nul : Char := Char.ofNat 0

def hasNul (s : String) : Bool := s.toList.contains nul

def sanitizeString (s : String) : String :=
  if hasNul s then String.ofList (s.toList.filter (· ≠ nul)) else s

/-- Put a value under its key, in place of the one that is there. -/
def insertEntry (key : String) (value : Value) : List (String × Value) → List (String × Value)
  | [] => [(key, value)]
  | entry :: rest =>
    if key < entry.1 then (key, value) :: entry :: rest
    else if entry.1 = key then (key, value) :: rest
    else entry :: insertEntry key value rest

namespace Value

def get (name : String) : Value → Option Value
  | object entries => (entries.find? fun entry => entry.1 = name).map Prod.snd
  | _ => none

def asStr : Value → Option String
  | string value => some value
  | _ => none

/-- Assign a field; nothing but an object has fields. -/
def insert (value : Value) (name : String) (assigned : Value) : Value :=
  match value with
  | object entries => object (insertEntry name assigned entries)
  | value => value

end Value

mutual

def sanitizeValue : Value → Value
  | .string s => .string (sanitizeString s)
  | .array items => .array (sanitizeItems items)
  | .object entries =>
    -- Keys cannot be changed in place, so the map is built anew.
    if entries.any fun entry => hasNul entry.1 then .object (rebuildEntries [] entries)
    else .object (sanitizeEntries entries)
  | value => value

def sanitizeItems : List Value → List Value
  | [] => []
  | value :: rest => sanitizeValue value :: sanitizeItems rest

def rebuildEntries (built : List (String × Value)) : List (String × Value) → List (String × Value)
  | [] => built
  | (key, value) :: rest =>
    rebuildEntries (insertEntry (sanitizeString key) (sanitizeValue value) built) rest

def sanitizeEntries : List (String × Value) → List (String × Value)
  | [] => []
  | (key, value) :: rest => (key, sanitizeValue value) :: sanitizeEntries rest

end

mutual

/-- No string and no key in it, at any depth, has a NUL. -/
def Value.nulFree : Value → Bool
  | .string s => !hasNul s
  | .array items => itemsNulFree items
  | .object entries => entriesNulFree entries
  | _ => true

def itemsNulFree : List Value → Bool
  | [] => true
  | value :: rest => value.nulFree && itemsNulFree rest

def entriesNulFree : List (String × Value) → Bool
  | [] => true
  | (key, value) :: rest => !hasNul key && value.nulFree && entriesNulFree rest

end

theorem itemsNulFree_iff {items : List Value} :
    itemsNulFree items = true ↔ ∀ value ∈ items, value.nulFree = true := by
  induction items with
  | nil => simp [itemsNulFree]
  | cons value rest ih => simp [itemsNulFree, ih]

theorem entriesNulFree_iff {entries : List (String × Value)} :
    entriesNulFree entries = true ↔
      ∀ entry ∈ entries, hasNul entry.1 = false ∧ entry.2.nulFree = true := by
  induction entries with
  | nil => simp [entriesNulFree]
  | cons entry rest ih => simp [entriesNulFree, ih, and_assoc]

theorem nulFree_object {entries : List (String × Value)} : (Value.object entries).nulFree = true ↔
    ∀ entry ∈ entries, hasNul entry.1 = false ∧ entry.2.nulFree = true := by
  show entriesNulFree entries = true ↔ _
  exact entriesNulFree_iff

theorem hasNul_sanitizeString (s : String) : hasNul (sanitizeString s) = false := by
  unfold sanitizeString
  by_cases bad : hasNul s = true
  · rw [if_pos bad]
    simp [hasNul, String.toList_ofList]
  · rw [if_neg bad]
    simpa using bad

theorem insertEntry_nulFree {key : String} {value : Value} {entries : List (String × Value)}
    (named : hasNul key = false) (fine : value.nulFree = true)
    (free : ∀ entry ∈ entries, hasNul entry.1 = false ∧ entry.2.nulFree = true) :
    ∀ entry ∈ insertEntry key value entries, hasNul entry.1 = false ∧ entry.2.nulFree = true := by
  induction entries with
  | nil =>
    intro entry among
    rw [List.mem_singleton.mp among]
    exact ⟨named, fine⟩
  | cons first rest ih =>
    have later := ih fun entry among => free entry (List.mem_cons_of_mem _ among)
    intro entry among
    unfold insertEntry at among
    split at among
    · rcases List.mem_cons.mp among with rfl | among
      · exact ⟨named, fine⟩
      · exact free entry among
    · split at among
      · rcases List.mem_cons.mp among with rfl | among
        · exact ⟨named, fine⟩
        · exact free entry (List.mem_cons_of_mem _ among)
      · rcases List.mem_cons.mp among with rfl | among
        · exact free entry List.mem_cons_self
        · exact later entry among

mutual

theorem nulFree_sanitizeValue (value : Value) : (sanitizeValue value).nulFree = true := by
  cases value with
  | null => rfl
  | bool value => rfl
  | number literal => rfl
  | string s => simp [sanitizeValue, Value.nulFree, hasNul_sanitizeString]
  | array items =>
    rw [sanitizeValue, Value.nulFree]
    exact nulFree_sanitizeItems items
  | object entries =>
    rw [sanitizeValue]
    split
    · rw [nulFree_object]
      exact nulFree_rebuildEntries [] entries fun _ among => nomatch among
    · rename_i good
      rw [nulFree_object]
      exact nulFree_sanitizeEntries entries (by simpa using good)

theorem nulFree_sanitizeItems (items : List Value) : itemsNulFree (sanitizeItems items) = true := by
  cases items with
  | nil => rfl
  | cons value rest =>
    rw [sanitizeItems, itemsNulFree, nulFree_sanitizeValue value, nulFree_sanitizeItems rest]
    rfl

theorem nulFree_rebuildEntries (built entries : List (String × Value))
    (free : ∀ entry ∈ built, hasNul entry.1 = false ∧ entry.2.nulFree = true) :
    ∀ entry ∈ rebuildEntries built entries, hasNul entry.1 = false ∧ entry.2.nulFree = true := by
  cases entries with
  | nil => exact free
  | cons first rest =>
    obtain ⟨key, value⟩ := first
    rw [rebuildEntries]
    exact nulFree_rebuildEntries _ rest
      (insertEntry_nulFree (hasNul_sanitizeString key) (nulFree_sanitizeValue value) free)

theorem nulFree_sanitizeEntries (entries : List (String × Value))
    (keys : ∀ entry ∈ entries, hasNul entry.1 = false) :
    ∀ entry ∈ sanitizeEntries entries, hasNul entry.1 = false ∧ entry.2.nulFree = true := by
  cases entries with
  | nil => exact fun _ among => nomatch among
  | cons first rest =>
    obtain ⟨key, value⟩ := first
    have later := nulFree_sanitizeEntries rest fun entry among => keys entry (List.mem_cons_of_mem _ among)
    intro entry among
    rcases List.mem_cons.mp among with rfl | among
    · exact ⟨keys (key, value) List.mem_cons_self, nulFree_sanitizeValue value⟩
    · exact later entry among

end

theorem nulFree_insert {name : String} {assigned value : Value} (named : hasNul name = false)
    (fine : assigned.nulFree = true) (free : value.nulFree = true) :
    (value.insert name assigned).nulFree = true := by
  cases value with
  | object entries =>
    exact nulFree_object.mpr (insertEntry_nulFree named fine (nulFree_object.mp free))
  | _ => exact free

theorem hasNul_asStr {name id : String} {value : Value} (free : value.nulFree = true)
    (read : (value.get name).bind Value.asStr = some id) : hasNul id = false := by
  obtain ⟨field, found, text⟩ := Option.bind_eq_some_iff.mp read
  cases value with
  | object entries =>
    obtain ⟨entry, present, rfl⟩ := Option.map_eq_some_iff.mp found
    have fine := (nulFree_object.mp free entry (List.mem_of_find?_eq_some present)).2
    cases held : entry.2 with
    | string s =>
      rw [held] at text fine
      cases text
      simpa [Value.nulFree] using fine
    | _ =>
      rw [held] at text
      cases text
  | _ => cases found

/-! ### Events -/

structure WireEvent where
  changeType : MEventType
  itemType : String
  createdAt : String
  tx : String
  sourceId : Option String
  item : Value

namespace WireEvent

def nulFree (event : WireEvent) : Bool :=
  !hasNul event.itemType && !hasNul event.createdAt && !hasNul event.tx &&
    !(event.sourceId.any hasNul) && event.item.nulFree

/-- Strip NUL characters from all string fields and the item. -/
def sanitizeNullBytes (event : WireEvent) : WireEvent where
  changeType := event.changeType
  itemType := sanitizeString event.itemType
  createdAt := sanitizeString event.createdAt
  tx := sanitizeString event.tx
  sourceId := event.sourceId.map sanitizeString
  item := sanitizeValue event.item

theorem nulFree_sanitize (event : WireEvent) : event.sanitizeNullBytes.nulFree = true := by
  obtain ⟨changeType, itemType, createdAt, tx, sourceId, item⟩ := event
  cases sourceId with
  | none => simp [nulFree, sanitizeNullBytes, hasNul_sanitizeString, nulFree_sanitizeValue]
  | some source => simp [nulFree, sanitizeNullBytes, hasNul_sanitizeString, nulFree_sanitizeValue]

end WireEvent

/-- The fields of each entity type that the server assigns. -/
structure AssignedFields where
  clientId : String → Option String
  serverOwned : String → Option String
  fallbackToId : String → List String

namespace AssignedFields

def assignClientId (fields : AssignedFields) (clientId itemType : String) (item : Value) : Value :=
  match fields.clientId itemType with
  | some field => item.insert field (.string clientId)
  | none => item

def assignServerOwner (fields : AssignedFields) (hostId itemType : String) (item : Value) : Value :=
  match fields.serverOwned itemType with
  | some field =>
    if ((item.get field).bind Value.asStr).getD "" = "" then item.insert field (.string hostId) else item
  | none => item

def fallBack (id field : String) (item : Value) : Value :=
  match item.get field with
  | none | some .null => item.insert field (.string id)
  | some _ => item

def assignFallbacks (fields : AssignedFields) (itemType : String) (item : Value) : Value :=
  match (item.get "id").bind Value.asStr with
  | some id => (fields.fallbackToId itemType).foldl (fun item field => fallBack id field item) item
  | none => item

def normalizeIncomingEvent (fields : AssignedFields) (clientId hostId : String) (event : WireEvent) : WireEvent :=
  if event.changeType ≠ .set then event
  else { event with
    item := fields.assignFallbacks event.itemType (fields.assignServerOwner hostId event.itemType
      (fields.assignClientId clientId event.itemType event.item)) }

/-- The names of the fields are identifiers. -/
structure NulFree (fields : AssignedFields) : Prop where
  clientId : ∀ itemType field, fields.clientId itemType = some field → hasNul field = false
  serverOwned : ∀ itemType field, fields.serverOwned itemType = some field → hasNul field = false
  fallbackToId : ∀ itemType, ∀ field ∈ fields.fallbackToId itemType, hasNul field = false

variable {fields : AssignedFields} {item : Value} (named : fields.NulFree)
include named

theorem nulFree_assignClientId {clientId itemType : String} (client : hasNul clientId = false)
    (free : item.nulFree = true) : (fields.assignClientId clientId itemType item).nulFree = true := by
  unfold assignClientId
  split
  · rename_i field known
    exact nulFree_insert (named.clientId _ _ known) (by simpa [Value.nulFree] using client) free
  · exact free

theorem nulFree_assignServerOwner {hostId itemType : String} (host : hasNul hostId = false)
    (free : item.nulFree = true) : (fields.assignServerOwner hostId itemType item).nulFree = true := by
  unfold assignServerOwner
  split
  · rename_i field known
    split
    · exact nulFree_insert (named.serverOwned _ _ known) (by simpa [Value.nulFree] using host) free
    · exact free
  · exact free

omit named in
theorem nulFree_fallBack {id field : String} (identified : hasNul id = false) (known : hasNul field = false)
    (free : item.nulFree = true) : (fallBack id field item).nulFree = true := by
  unfold fallBack
  split
  · exact nulFree_insert known (by simpa [Value.nulFree] using identified) free
  · exact nulFree_insert known (by simpa [Value.nulFree] using identified) free
  · exact free

theorem nulFree_assignFallbacks {itemType : String} (free : item.nulFree = true) :
    (fields.assignFallbacks itemType item).nulFree = true := by
  unfold assignFallbacks
  split
  · rename_i id found
    have identified := hasNul_asStr free found
    have known := named.fallbackToId itemType
    clear found
    generalize fields.fallbackToId itemType = names at known
    induction names generalizing item with
    | nil => exact free
    | cons field rest ih =>
      exact ih (nulFree_fallBack identified (known field List.mem_cons_self) free)
        fun other among => known other (List.mem_cons_of_mem _ among)
  · exact free

/-- What is filled in brings no NUL with it. -/
theorem nulFree_normalize {clientId hostId : String} {event : WireEvent} (client : hasNul clientId = false)
    (host : hasNul hostId = false) (free : event.item.nulFree = true) :
    (fields.normalizeIncomingEvent clientId hostId event).item.nulFree = true := by
  unfold normalizeIncomingEvent
  split
  · exact free
  · exact nulFree_assignFallbacks named (nulFree_assignServerOwner named host
      (nulFree_assignClientId named client free))

omit named in
theorem normalize_itemType (clientId hostId : String) (event : WireEvent) :
    (fields.normalizeIncomingEvent clientId hostId event).itemType = event.itemType := by
  unfold normalizeIncomingEvent
  split <;> rfl

end AssignedFields
end Myko
