/-
  **Every call of `console.error` reaches the console while signed URLs are redacted.**
-/
import Mathlib.Data.List.Infix

namespace Tamoss.Player

/-- A logged value; objects are looked up in a heap, for they may be cyclic. -/
inductive Value where
  | text (s : String)
  | other
  | object (id : Nat)
deriving DecidableEq

/-- `value instanceof URL`, which throws for a revoked proxy, and the text of a URL, `none`
    where `toString` throws. -/
inductive UrlView where
  | throws
  | noUrl
  | url (text : Option String)

/-- What is read of an object; `none` where reading it throws. -/
structure ObjectView where
  url : UrlView
  /-- `value instanceof Error`, with the `message`, `stack` and `cause` of an `Error` and nothing
      of other objects -/
  error : Option (List (Option Value))
  /-- the values under `Object.keys` -/
  properties : Option (List (Option Value))

abbrev Heap := Nat → ObjectView

/-- What an inspection answers (`none`: it throws), and the objects it has seen. -/
abbrev Inspection := List Nat → Option Bool × List Nat

/-- The values one after the other.  Those of an `Error` are read outside of any `try`. -/
def anyOf (guarded : Bool) (inspect : Value → Inspection) : List (Option Value) → Inspection
  | [], seen => (some false, seen)
  | none :: values, seen => if guarded then anyOf guarded inspect values seen else (none, seen)
  | some value :: values, seen =>
    match inspect value seen with
    | (some true, seen) => (some true, seen)
    | (some false, seen) => anyOf guarded inspect values seen
    | (none, seen) => if guarded then anyOf guarded inspect values seen else (none, seen)

def includesKnown (known : List String) (s : String) : Bool :=
  known.any fun k => k.toList <:+: s.toList

/-- `levels` is how many are left of `MAX_INSPECTION_DEPTH`.  Whether a value is a URL is asked
    before the depth is looked at. -/
def containsSensitiveValue (heap : Heap) (known : List String) : Nat → Value → Inspection
  | _, .text s, seen => (some (includesKnown known s), seen)
  | _, .other, seen => (some false, seen)
  | levels, .object id, seen =>
    match (heap id).url with
    | .throws => (none, seen)
    | .url text =>
      -- `toString` is called for each known value
      (if known = [] then some false else text.map (includesKnown known), seen)
    | .noUrl =>
      match levels with
      | 0 => (some false, seen)
      | levels + 1 =>
        if id ∈ seen then (some false, seen)
        else
          let inspect := containsSensitiveValue heap known levels
          match (heap id).error with
          | none => (none, id :: seen)
          | some reads =>
            match anyOf false inspect reads (id :: seen) with
            | (some false, seen) =>
              match (heap id).properties with
              | none => (some false, seen)
              | some properties => anyOf true inspect (properties.take 128) seen
            | answer => answer

/-- What `console.error` can be: the console's own function, the function of an installation,
    or one of other code that calls the previous one. -/
inductive ConsoleError where
  | base
  | installed (n : Nat)
  | foreign (previous : ConsoleError)
deriving DecidableEq

/-- The values a disposer releases, and whether it has been called. -/
structure Disposer where
  ownedValues : List String
  disposed : Bool

/-- `console.error` and the variables of the module.  A value is in `sensitiveValues` as
    often as its count says; `installs` numbers the functions created. -/
structure Page where
  consoleError : ConsoleError := .base
  sensitiveValues : List String := []
  originalConsoleError : Option ConsoleError := none
  installedConsoleError : Option ConsoleError := none
  installs : Nat := 0
  disposers : List Disposer := []

def redacted : List Value := [.text "Omakase media error details were redacted by TAMOSS."]

/-- A call of the function: what reaches the console, or an exception.  `none` if the calls
    are nested deeper than `fuel`. -/
def Page.call (heap : Heap) (page : Page) :
    Nat → ConsoleError → List Value → Option (Except Unit (List (List Value)))
  | 0, _, _ => none
  | _ + 1, .base, data => some (.ok [data])
  | fuel + 1, .foreign previous, data => page.call heap fuel previous data
  | fuel + 1, .installed _, data =>
    match page.originalConsoleError with
    | none => some (.ok [])
    | some output =>
      let inspect value seen :=
        ((containsSensitiveValue heap page.sensitiveValues 8 value []).1, seen)
      match (anyOf false inspect (data.map some) []).1 with
      | none => some (.error ())
      | some true => page.call heap fuel output redacted
      | some false => page.call heap fuel output data

def Page.install (page : Page) (values : List String) : Page :=
  let owned := (values.filter fun value => value.length > 0).dedup
  if owned = [] then page
  else
    let page := { page with
      sensitiveValues := page.sensitiveValues ++ owned
      disposers := page.disposers ++ [⟨owned, false⟩] }
    if page.installedConsoleError.isSome then page
    else { page with
      originalConsoleError := some page.consoleError
      installedConsoleError := some (.installed page.installs)
      consoleError := .installed page.installs
      installs := page.installs + 1 }

def Page.remaining (page : Page) (n : Nat) : Option (List String) :=
  match page.disposers[n]? with
  | none => none
  | some disposer =>
    if disposer.disposed then none
    else some (disposer.ownedValues.foldl List.erase page.sensitiveValues)

/-- The function that the `n`-th effective installation has returned. -/
def Page.dispose (page : Page) (n : Nat) : Page :=
  match page.remaining n with
  | none => page
  | some remaining =>
    let page := { page with
      sensitiveValues := remaining
      disposers := page.disposers.modify n fun disposer => { disposer with disposed := true } }
    if remaining ≠ [] then page
    else { page with
      consoleError :=
        if some page.consoleError = page.installedConsoleError then
          page.originalConsoleError.getD page.consoleError
        else page.consoleError
      installedConsoleError := none
      originalConsoleError := none }

inductive Event where
  | install (values : List String)
  | dispose (n : Nat)
  /-- other code wraps `console.error` -/
  | wrap

def Page.step (page : Page) : Event → Page
  | .install values => page.install values
  | .dispose n => page.dispose n
  | .wrap => { page with consoleError := .foreign page.consoleError }

def Page.run (page : Page) (events : List Event) : Page := events.foldl Page.step page

/-- Nothing throws outside of a `try` when the value is inspected: no `instanceof`, no
    `toString` of a URL, and no `message`, `stack` or `cause` of the value or of one reached
    from it through these. -/
def Heap.Readable (heap : Heap) : Nat → Value → Prop
  | _, .text _ => True
  | _, .other => True
  | levels, .object id =>
    match (heap id).url with
    | .throws => False
    | .url text => text ≠ none
    | .noUrl =>
      match levels with
      | 0 => True
      | levels + 1 => ∃ reads, (heap id).error = some reads ∧
          ∀ read ∈ reads, ∃ value, read = some value ∧ heap.Readable levels value

theorem anyOf_guarded (inspect : Value → Inspection) (values : List (Option Value))
    (seen : List Nat) : (anyOf true inspect values seen).1 ≠ none := by
  induction values generalizing seen with
  | nil => simp [anyOf]
  | cons value values ih =>
    cases value with
    | none => exact ih seen
    | some value =>
      unfold anyOf
      split
      · simp
      · exact ih _
      · exact ih _

theorem anyOf_unguarded {inspect : Value → Inspection} {values : List (Option Value)}
    (h : ∀ read ∈ values, ∃ value, read = some value ∧ ∀ seen, (inspect value seen).1 ≠ none)
    (seen : List Nat) : (anyOf false inspect values seen).1 ≠ none := by
  induction values generalizing seen with
  | nil => simp [anyOf]
  | cons read values ih =>
    obtain ⟨value, rfl, hvalue⟩ := h read List.mem_cons_self
    have hone := hvalue seen
    unfold anyOf
    split
    · simp
    · exact ih (fun read hread => h read (List.mem_cons_of_mem _ hread)) _
    · rename_i heq
      rw [heq] at hone
      exact absurd rfl hone

theorem containsSensitiveValue_total {heap : Heap} (known : List String) {levels : Nat}
    {value : Value} (h : heap.Readable levels value) (seen : List Nat) :
    (containsSensitiveValue heap known levels value seen).1 ≠ none := by
  induction levels generalizing value seen with
  | zero =>
    cases value with
    | object id =>
      unfold Heap.Readable at h
      unfold containsSensitiveValue
      cases hurl : (heap id).url with
      | throws =>
        rw [hurl] at h
        exact h.elim
      | noUrl => simp
      | url text =>
        rw [hurl] at h
        cases text with
        | none => exact absurd rfl h
        | some s => cases known <;> simp
    | _ => simp [containsSensitiveValue]
  | succ levels ih =>
    cases value with
    | object id =>
      unfold Heap.Readable at h
      unfold containsSensitiveValue
      cases hurl : (heap id).url with
      | throws =>
        rw [hurl] at h
        exact h.elim
      | url text =>
        rw [hurl] at h
        cases text with
        | none => exact absurd rfl h
        | some s => cases known <;> simp
      | noUrl =>
        rw [hurl] at h
        obtain ⟨reads, herror, hreads⟩ := h
        have htotal : (anyOf false (containsSensitiveValue heap known levels) reads
            (id :: seen)).1 ≠ none := anyOf_unguarded (fun read hread => by
          obtain ⟨value, rfl, hvalue⟩ := hreads read hread
          exact ⟨value, rfl, fun seen => ih hvalue seen⟩) _
        dsimp only
        split
        · simp
        · rw [herror]
          dsimp only
          split
          · split
            · simp
            · exact anyOf_guarded _ _ _
          · exact htotal
    | _ => simp [containsSensitiveValue]

/-- The function hands every call on to the console, through other code only. -/
inductive Plain : ConsoleError → Prop
  | base : Plain .base
  | foreign {f : ConsoleError} : Plain f → Plain (.foreign f)

/-- The function hands every call on to the installed one, through other code only. -/
inductive Over (n : Nat) : ConsoleError → Prop
  | installed : Over n (.installed n)
  | foreign {f : ConsoleError} : Over n f → Over n (.foreign f)

/-- Either nothing is installed, or the installed function is in use and hands on. -/
def Page.Sound (page : Page) : Prop :=
  (page.installedConsoleError = none ∧ Plain page.consoleError) ∨
    ∃ n original, page.installedConsoleError = some (.installed n) ∧
      page.originalConsoleError = some original ∧ Plain original ∧ Over n page.consoleError

def Page.Delivers (heap : Heap) (page : Page) (data : List Value) : Prop :=
  ∃ fuel out, page.call heap fuel page.consoleError data = some (.ok [out]) ∧
    (out = data ∨ out = redacted)

theorem Plain.call {f : ConsoleError} (h : Plain f) (heap : Heap) (page : Page)
    (data : List Value) : ∃ fuel, page.call heap fuel f data = some (.ok [data]) := by
  induction h with
  | base => exact ⟨1, rfl⟩
  | foreign _ ih =>
    obtain ⟨fuel, hcall⟩ := ih
    exact ⟨fuel + 1, hcall⟩

theorem Over.call {n : Nat} {f original : ConsoleError} (h : Over n f) {heap : Heap}
    {page : Page} (horiginal : page.originalConsoleError = some original)
    (hplain : Plain original) {data : List Value} (hdata : ∀ value ∈ data, heap.Readable 8 value) :
    ∃ fuel out, page.call heap fuel f data = some (.ok [out]) ∧ (out = data ∨ out = redacted) := by
  induction h with
  | installed =>
    have htotal : (anyOf false (fun value seen =>
        ((containsSensitiveValue heap page.sensitiveValues 8 value []).1, seen))
        (data.map some) []).1 ≠ none := anyOf_unguarded (fun read hread => by
      obtain ⟨value, hvalue, rfl⟩ := List.mem_map.mp hread
      exact ⟨value, rfl, fun _ =>
        containsSensitiveValue_total page.sensitiveValues (hdata value hvalue) []⟩) []
    obtain ⟨fuel, hcall⟩ := hplain.call heap page data
    obtain ⟨fuel', hcall'⟩ := hplain.call heap page redacted
    cases hfound : (anyOf false (fun value seen =>
        ((containsSensitiveValue heap page.sensitiveValues 8 value []).1, seen))
        (data.map some) []).1 with
    | none => exact absurd hfound htotal
    | some found =>
      cases found with
      | true => exact ⟨fuel' + 1, redacted, by simp [Page.call, horiginal, hfound, hcall'], .inr rfl⟩
      | false => exact ⟨fuel + 1, data, by simp [Page.call, horiginal, hfound, hcall], .inl rfl⟩
  | foreign _ ih =>
    obtain ⟨fuel, out, hcall⟩ := ih
    exact ⟨fuel + 1, out, hcall⟩

theorem Page.Sound.delivers {page : Page} (h : page.Sound) {heap : Heap} {data : List Value}
    (hdata : ∀ value ∈ data, heap.Readable 8 value) : page.Delivers heap data := by
  rcases h with ⟨-, hplain⟩ | ⟨n, original, -, horiginal, hplain, hover⟩
  · obtain ⟨fuel, hcall⟩ := hplain.call heap page data
    exact ⟨fuel, data, hcall, .inl rfl⟩
  · exact hover.call horiginal hplain hdata

/-- The last values are released only while nothing has been put over the installed
    function. -/
def Page.Orderly (page : Page) : Event → Prop
  | .dispose n => page.remaining n = some [] →
      page.installedConsoleError = none ∨ some page.consoleError = page.installedConsoleError
  | _ => True

def Page.OrderlyRun : Page → List Event → Prop
  | _, [] => True
  | page, event :: events => page.Orderly event ∧ (page.step event).OrderlyRun events

theorem Page.Sound.install {page : Page} (h : page.Sound) (values : List String) :
    (page.install values).Sound := by
  unfold Page.install
  dsimp only
  split
  · exact h
  · split
    · exact h
    · rename_i hinstalled
      rcases h with ⟨-, hplain⟩ | ⟨n, original, hsome, -⟩
      · exact .inr ⟨page.installs, page.consoleError, rfl, rfl, hplain, .installed⟩
      · exact absurd (by rw [hsome]; rfl) hinstalled

theorem Page.Sound.dispose {page : Page} (h : page.Sound) {n : Nat}
    (horderly : page.Orderly (.dispose n)) : (page.dispose n).Sound := by
  unfold Page.dispose
  split
  · exact h
  · rename_i remaining hremaining
    dsimp only
    split
    · exact h
    · rename_i hempty
      obtain rfl : remaining = [] := not_not.mp hempty
      rcases h with ⟨hnone, hplain⟩ | ⟨m, original, hsome, horiginal, hplain, hover⟩
      · rw [hnone, if_neg (Option.some_ne_none _)]
        exact .inl ⟨rfl, hplain⟩
      · -- the installed function is on top, and the original one is put back
        rcases horderly hremaining with hnone | htop
        · rw [hsome] at hnone
          cases hnone
        · rw [if_pos htop, horiginal]
          exact .inl ⟨rfl, hplain⟩

theorem Page.Sound.step {page : Page} (h : page.Sound) {event : Event}
    (horderly : page.Orderly event) : (page.step event).Sound := by
  cases event with
  | install values => exact h.install values
  | dispose n => exact h.dispose horderly
  | wrap =>
    rcases h with ⟨hnone, hplain⟩ | ⟨n, original, hsome, horiginal, hplain, hover⟩
    · exact .inl ⟨hnone, hplain.foreign⟩
    · exact .inr ⟨n, original, hsome, horiginal, hplain, hover.foreign⟩

theorem Page.Sound.run {page : Page} (h : page.Sound) {events : List Event}
    (horderly : page.OrderlyRun events) : (page.run events).Sound := by
  induction events generalizing page with
  | nil => exact h
  | cons event events ih => exact ih (h.step horderly.1) horderly.2

/-- **In every orderly run every call of `console.error` with readable values reaches the console
    once.** -/
theorem console_errors_delivered (heap : Heap) (events : List Event)
    (horderly : Page.OrderlyRun {} events) {data : List Value}
    (hdata : ∀ value ∈ data, heap.Readable 8 value) : (Page.run {} events).Delivers heap data := by
  have hstart : Page.Sound {} := .inl ⟨rfl, .base⟩
  exact (hstart.run horderly).delivers hdata

def emptyHeap : Heap := fun _ => ⟨.noUrl, some [], none⟩

/-- Object 0 is an `Error` with a getter that throws, object 1 a revoked proxy. -/
def hostileHeap : Heap
  | 0 => ⟨.noUrl, some [some (.text "v"), some .other, some .other], some [none]⟩
  | 1 => ⟨.throws, none, none⟩
  | _ => ⟨.noUrl, some [], none⟩

/-- Two previews, one after the other, with other code in between. -/
theorem console_errors_delivered_twice :
    (Page.run {} [.install ["u"], .dispose 0, .wrap, .install ["v"]]).Delivers hostileHeap
      [.text "x", .object 0] := by
  apply console_errors_delivered
  · refine ⟨trivial, fun _ => .inr rfl, trivial, trivial, trivial⟩
  · intro value hvalue
    simp only [List.mem_cons, List.not_mem_nil, or_false] at hvalue
    rcases hvalue with rfl | rfl
    · trivial
    · refine ⟨_, rfl, fun read hread => ?_⟩
      simp only [List.mem_cons, List.not_mem_nil, or_false] at hread
      rcases hread with rfl | rfl | rfl
      · exact ⟨_, rfl, trivial⟩
      · exact ⟨_, rfl, trivial⟩
      · exact ⟨_, rfl, trivial⟩

/-- The installed function throws when a revoked proxy is logged. -/
example : (Page.run {} [.install ["u"]]).call hostileHeap 3 (.installed 0) [.object 1] =
    some (.error ()) := by
  decide

/-- Other code wraps the installed function before it is released: calls get lost. -/
theorem console_error_lost :
    (Page.run {} [.install ["u"], .wrap, .dispose 0]).call emptyHeap 3
      (Page.run {} [.install ["u"], .wrap, .dispose 0]).consoleError [.text "x"] =
      some (.ok []) := by
  decide

end Tamoss.Player
