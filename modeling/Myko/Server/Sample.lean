import Myko.Server.Run

/-!
A small server to look at single runs with: nodes, and links from node to node of which each pair has
at most one.
-/

namespace Myko.Sample
open StateError

def node (id : String) : Item where
  entityType := "node"
  id := id
  fields := []

def link (id source target : String) : Item where
  entityType := "link"
  id := id
  fields := [("source", .text source), ("target", .text target)]

def endpoint (item : Item) (name : String) : Except String EndpointValue :=
  match item.field name with
  | some (.text id) => .ok ⟨⟨"node", id⟩, none⟩
  | _ => .error "link without an endpoint"

def linkEndpoints (item : Item) : Except String EdgeEndpoints :=
  if item.entityType = "link" then do
    let a ← endpoint item "source"
    let b ← endpoint item "target"
    return ⟨a, b⟩
  else .error "not a link"

def links : EdgeRegistration where
  edgeType := "link"
  shape := .directed
  pairPolicy := .unique
  pairProjection := .intersectAdjacency
  endpointA := .concrete "node"
  endpointB := .concrete "node"
  scopeType := none
  adjacency := .eager
  selfLoops := .allow
  aDelete := .cascadeEdge
  bDelete := .cascadeEdge
  extract := linkEndpoints
  extractScope _ := .ok none
  validate := none
  typed item endpoints h := by
    unfold linkEndpoints at h
    split at h
    · assumption
    · cases h
  unscoped _ _ _ h := by
    cases h
    rfl

def schema : GraphSchema where
  registrations := [links]
  distinct := by decide
  overrides _ := none
  categories _ := []
  itemTypes := ["node", "link"]

def textHash (hash : Nat) (text : String) : Nat :=
  text.toList.foldl (fun hash char => 31 * hash + char.toNat) hash

def fieldHash (hash : Nat) : Field → Nat
  | .text value => textHash hash value
  | .optional value => value.elim (7 * hash) (textHash hash)
  | .ids values => values.foldl textHash (hash + 1)
  | .data content => textHash hash content

def contentHash (item : Item) : Nat := item.fields.foldl (fun hash field => fieldHash hash field.2) 1

def server : MykoServerContext where
  schema := schema
  relations := []
  hostId := "host"
  serverOwnedField _ := none
  uuid n := s!"uuid-{n}"
  contentHash := contentHash
  persister _ := none
  parser _ _ := none
  parser_type _ _ _ h := by cases h
  bufferPolicy _ := .none

end Myko.Sample
