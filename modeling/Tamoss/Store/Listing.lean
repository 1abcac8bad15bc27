/-
  **Listing flows and sources in an order.**

  The window of `domain/listing_pagination.py`, and of `query_filters.py` in
  `adapters/postgres_repository` the `ORDER BY` of a listing and its cursor predicate, which
  selects the rows behind the anchor of a page token.
-/
import Tamoss.Store.Datetimes
import Tamoss.Store.Records

namespace Tamoss

open Lib

/-! ## The window -/

inductive SortValue where
  | instant (time : Time)
  | text (value : String)
deriving DecidableEq

/-- What Python and PostgreSQL do with the texts of values.  Where a result is an option, `none`
    is the ValueError that the function documents. -/
structure PageCodec where
  /-- `value.astimezone(UTC).isoformat()` -/
  isoformat : Time → String
  /-- the instant, if it lies between the first and the last that UTC can express, and whether
      the text has a time zone -/
  fromisoformat : String → Option (Option Time × Bool)
  /-- the collation of the database: the first text sorts before the second -/
  collates : String → String → Bool

/-- What Python documents of the texts of datetimes: `isoformat` writes them as
    `Datetime.isoformat` does, and `fromisoformat` reads them. -/
structure PageCodec.Texts (codec : PageCodec) : Prop where
  isoformat : ∀ d : Datetime, codec.isoformat d.instant = String.ofList d.isoformat
  fromisoformat : ∀ d : Datetime,
    codec.fromisoformat (String.ofList d.isoformat) = some (some d.instant, true)

structure ListingWindow where
  context : String
  limit : Nat
  offset : Nat
  descending : Bool
  missingFirst : Bool
  anchorId : Option Nat
  anchorValue : Option String
  offsetPaging : Bool

variable (codec : PageCodec)

def listingValue : Option SortValue → Option String
  | none => none
  | some (.instant time) => some (codec.isoformat time)
  | some (.text value) => some value

/-! ## The statement -/

def SortValue.lt : SortValue → SortValue → Bool
  | .instant a, .instant b => a < b
  | .text a, .text b => codec.collates a b
  | .instant _, .text _ => true
  | .text _, .instant _ => false

/-- `_listing_order_sql`: `value direction NULLS first or last, id direction` -/
def listingLe (descending missingFirst : Bool) (a b : Option SortValue × Nat) : Bool :=
  let before (x y : SortValue) := if descending then y.lt codec x else x.lt codec y
  let tie : Bool := if descending then b.2 ≤ a.2 else a.2 ≤ b.2
  match a.1, b.1 with
  | none, none => tie
  | none, some _ => missingFirst
  | some _, none => !missingFirst
  | some x, some y => before x y || (!before y x && tie)

def cursorValue (timestamp : Bool) (anchorValue : String) : Except PyError SortValue :=
  if timestamp then
    match codec.fromisoformat anchorValue with
    | none => .error (.valueError "Invalid isoformat string")
    | some (none, _) => .error .overflowError
    | some (some time, _) => .ok (.instant time)
  else .ok (.text anchorValue)

/-- The cursor predicate of `_apply_listing_cursor`, on the value and id of a row.  A row
    comparison with NULL is not true. -/
def cursorPredicate (window : ListingWindow) (timestamp : Bool) (anchorId : Nat)
    (anchor : Option SortValue) (row : Option SortValue × Nat) : Bool :=
  let tie : Bool := if window.descending then row.2 < anchorId else anchorId < row.2
  match anchor, row.1 with
  | none, none => tie
  | none, some _ => window.missingFirst
  | some _, none => !timestamp && !window.missingFirst
  | some cursor, some value =>
      if window.descending then value.lt codec cursor || (value == cursor && tie)
      else cursor.lt codec value || (value == cursor && tie)

def applyListingCursor {ρ : Type} (rows : List ρ) (window : ListingWindow) (timestamp : Bool)
    (row : ρ → Option SortValue × Nat) : Except PyError (List ρ × ListingWindow) :=
  match window.anchorId with
  | none => .ok (rows, window)
  | some anchorId => do
      let anchor ← match window.anchorValue with
        | none => pure none
        | some text => (cursorValue codec timestamp text).map some
      let follows r := cursorPredicate codec window timestamp anchorId anchor (row r)
      if window.offsetPaging then
        return (rows, { window with offset := (rows.filter fun r => !follows r).length })
      else
        return (rows.filter follows, window)

end Tamoss
