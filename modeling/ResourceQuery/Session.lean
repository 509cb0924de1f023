import ResourceQuery.Query

/-!
# A query session with a bounded cache

A session remembers the trees of the queries it has parsed, under the exact text of each query. The
cache holds a bounded number of entries and drops the oldest one first. Every tree that is made
carries a stamp of its own, so that it shows whether a tree was remembered or made anew.
-/

namespace ResourceQuery
set_option autoImplicit false

/-- A parsed tree and the stamp it was given when it was made. -/
structure Stamped where
  stamp : Nat
  node : Node
deriving DecidableEq, Repr

/-! ## The cache -/

/-- Remembered trees, oldest first. -/
abbrev Cache : Type := Fields Stamped

namespace Cache

/-- The cache without its oldest entries, until there is room for one more. -/
def makeRoom (capacity : Nat) (cache : Cache) : Cache :=
  cache.drop (cache.length + 1 - capacity)

/-- Remembers a tree unless its query is known. A cache without capacity remembers nothing. -/
def remember (capacity : Nat) (cache : Cache) (query : String) (tree : Stamped) : Cache :=
  if capacity = 0 ∨ (cache.get? query).isSome then cache
  else makeRoom capacity cache ++ [(query, tree)]

end Cache

/-! ## The session -/

/-- The settings of a session. -/
structure Session.Settings where
  /-- How many trees are remembered at most. -/
  capacity : Nat := 1024
  /-- How deep parentheses may be nested. -/
  maxDepth : Nat := Surface.defaultMaxDepth
  /-- Trees are normalized before they are remembered. -/
  normalize : Bool := true
deriving DecidableEq, Repr

/-- A session: its settings, what it remembers, and the stamp of the next tree. -/
structure Session where
  settings : Session.Settings
  cache : Cache
  nextStamp : Nat
deriving DecidableEq, Repr

/-- What trees are compiled to, and the answer for blank queries. -/
structure Backend (β : Type) where
  compile : Node → Except CompilationError β
  blank : β

namespace Backend

/-- Compiles trees to document queries. -/
def documentStore : Backend DocumentQuery where
  compile := Compilation.compile
  blank := .matchAll

end Backend

namespace Session

/-- A session that remembers nothing yet. -/
def new (settings : Settings) : Session :=
  ⟨settings, [], 0⟩

/-- The tree of a query, remembered or made anew. -/
def parse (session : Session) (query : String) : Except ParseError Stamped × Session :=
  match session.cache.get? query with
  | some tree => (.ok tree, session)
  | none =>
    match parseWithin session.settings.maxDepth query with
    | .error error => (.error error, session)
    | .ok node =>
      let tree : Stamped := ⟨session.nextStamp, node.normalizeIf session.settings.normalize⟩
      (.ok tree,
        { session with
          cache := session.cache.remember session.settings.capacity query tree
          nextStamp := session.nextStamp + 1 })

/-- What a backend makes of a query. -/
def answerWith {β : Type} (backend : Backend β) (session : Session) (query : String) :
    Except QueryError β × Session :=
  if Text.allBlank query then (.ok backend.blank, session)
  else
    match session.parse query with
    | (.error error, session) => (.error (.parse error), session)
    | (.ok tree, session) =>
      match backend.compile tree.node with
      | .error error => (.error (.compilation error), session)
      | .ok compiled => (.ok compiled, session)

/-- The document query of a query. -/
def compile (session : Session) (query : String) : Except QueryError DocumentQuery × Session :=
  session.answerWith .documentStore query

/-- How many trees are remembered. -/
def cacheSize (session : Session) : Nat :=
  session.cache.length

/-- Forgets all trees. -/
def forget (session : Session) : Session :=
  { session with cache := [] }

end Session
end ResourceQuery
