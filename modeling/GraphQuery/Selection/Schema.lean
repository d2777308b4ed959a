/-! Schemas, as far as requests need them: the types that have selections, and the fields of each
with the types of their values. -/
namespace GraphQuery.Selection

structure ObjectType where
  name : String
  /-- The fields, each with the named type of its value; a union has none. -/
  fields : List (String × String)
  deriving Repr

/-- The object, interface and union types of a schema, and the type of its queries. -/
structure Schema where
  queryType : String
  types : List ObjectType
  deriving Repr

namespace Schema

def find? (s : Schema) (type : String) : Option ObjectType := s.types.find? (·.name == type)

def isComposite (s : Schema) (type : String) : Bool := (s.find? type).isSome

def fieldType? (s : Schema) (type field : String) : Option String :=
  (s.find? type).bind fun t => t.fields.lookup field

end Schema

/-- A schema of code repositories, their issues, and the people behind them. -/
def repositories : Schema where
  queryType := "Query"
  types := [
    ⟨"Query", [("repository", "Repository"), ("node", "Node"), ("search", "SearchResult"),
      ("viewer", "User"), ("version", "String")]⟩,
    ⟨"Node", [("id", "ID")]⟩,
    ⟨"Actor", [("login", "String"), ("avatarUrl", "String")]⟩,
    ⟨"User", [("id", "ID"), ("login", "String"), ("avatarUrl", "String"), ("bio", "String"),
      ("repositories", "RepositoryConnection"), ("friends", "User")]⟩,
    ⟨"Organization", [("id", "ID"), ("login", "String"), ("avatarUrl", "String"),
      ("members", "User")]⟩,
    ⟨"Repository", [("id", "ID"), ("name", "String"), ("description", "String"),
      ("stargazerCount", "Int"), ("owner", "Actor"), ("state", "State"),
      ("issues", "IssueConnection")]⟩,
    ⟨"RepositoryConnection", [("totalCount", "Int"), ("edges", "RepositoryEdge")]⟩,
    ⟨"RepositoryEdge", [("cursor", "String"), ("node", "Repository")]⟩,
    ⟨"IssueConnection", [("totalCount", "Int"), ("edges", "IssueEdge")]⟩,
    ⟨"IssueEdge", [("cursor", "String"), ("node", "Issue")]⟩,
    ⟨"Issue", [("id", "ID"), ("number", "Int"), ("title", "String"), ("author", "Actor"),
      ("related", "SearchResult")]⟩,
    ⟨"SearchResult", []⟩]

end GraphQuery.Selection
