import ApiCerberus.Lib.Table
import ApiCerberus.Lib.Text

/-!
# Header fields

`http.Header`: the values of each field, in order, under its canonical name.
-/

abbrev Header := FinMap Text (List Text)

namespace Header

/-- `Get`: the first value, or the empty text. -/
def get (h : Header) (name : Text) : Text := ((h.get? name).getD []).headD []

/-- `Values`. -/
def values (h : Header) (name : Text) : List Text := (h.get? name).getD []

/-- `Set`. -/
def put (h : Header) (name value : Text) : Header := h.set name [value]

/-- `CanonicalHeaderKey`: a letter is upper case if it is the first or follows a hyphen. -/
def canonicalKey (name : Text) : Text :=
  let valid (c : Char) := c.isAlphanum || c ∈ ['!', '#', '$', '%', '&', '\x27', '*', '+', '-', '.', '^',
    '_', '\x60', '|', '~']
  if name.all valid then
    (name.foldl (fun (acc : Bool × Text) c => (c = '-', (if acc.1 then c.toUpper else c.toLower) :: acc.2))
      (true, [])).2.reverse
  else name

end Header
