import PlatformCatalog.Record.Document
import PlatformCatalog.Store.Backend

/-!
# Questions and answers

The questions that callers put to a store, and the documents that answer
them.
-/

set_option autoImplicit false

namespace PlatformCatalog

open Json Text

structure ProductsAnswer where
  active : List Product
  deprecated : List Product
  deriving DecidableEq, Repr

def ProductsAnswer.toJson (a : ProductsAnswer) : Json :=
  .record [("vendorProducts", .list (a.active.map Product.toJson)),
    ("deprecated", .list (a.deprecated.map Product.toJson))]

structure UrisAnswer where
  active : List String
  deprecated : List String
  deriving DecidableEq, Repr

def UrisAnswer.toJson (a : UrisAnswer) : Json :=
  .record [("cpeURIs", .texts a.active), ("deprecated", .texts a.deprecated)]

structure SearchRequest where
  query : String
  n : Nat
  algorithm : String := ""
  deriving DecidableEq, Repr

namespace SearchRequest

def layout : Layout := [["query"], ["n"], ["algorithm"]]

def ofJson (v : Json) : Option SearchRequest :=
  match fields? layout v with
  | some [query, n, algorithm] => do
    let query ← required? text? query
    let n ← required? (natural? max64) n
    let algorithm ← optional? text? "" algorithm
    return ⟨query, n, algorithm⟩
  | _ => none

def toJson (r : SearchRequest) : Json :=
  .record [("query", .text r.query), ("n", .natural r.n), ("algorithm", .text r.algorithm)]

end SearchRequest

inductive QueryError where
  | unknownAlgorithm (name : String)
  deriving DecidableEq, Repr

def QueryError.message : QueryError → String
  | .unknownAlgorithm name => "unknown fuzzy search algorithm " ++ quoted name

namespace Store

def productsAnswer (s : Store) : ProductsAnswer :=
  let (active, deprecated) := s.products
  ⟨active, deprecated⟩

def urisAnswer (s : Store) (p : Product) : UrisAnswer :=
  let (active, deprecated) := s.uris p
  ⟨active, deprecated⟩

def search (s : Store) (byProduct : Bool) (r : SearchRequest) : Except QueryError (List Entry) :=
  match Algorithm.parse r.algorithm with
  | none => .error (.unknownAlgorithm r.algorithm)
  | some a =>
    .ok (if byProduct then s.similarSearchTitles r.query r.n a else s.similarTitles r.query r.n a)

end Store

end PlatformCatalog
