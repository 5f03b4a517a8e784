import SenderPolicy.Octets
import SenderPolicy.Text.CharClass
import SenderPolicy.Text.LowerCase
import SenderPolicy.Text.Utf8

/-!
# Domain names

Names as they stand in requests, records and questions: text with dots between
labels, where one dot at the end is allowed and changes nothing.

Main definitions:

- `DomainName.labels`: the view of a name as a list of labels;
- `DomainName.isValid`: the names that may be looked up;
- `DomainName.qualify`: the form in which a name is looked up;
- `DomainName.normalize`: the form in which answers hold names;
- `DomainName.isWithin`: a name that is another name or lies below it.
-/

namespace SenderPolicy.DomainName

/-- The most octets of a name, without a dot at its end. -/
def maxSize : Nat := 253

/-- The most octets of a label. -/
def maxLabelSize : Nat := 63

/-- The labels of a name, after one dot at its end is removed. -/
def labels (name : String) : List (List Char) :=
  pieces (· = '.') (dropFinal '.' name.toList)

/-- Whether a name may be looked up: at least two labels, none of them empty or
too long, the whole not too long, and a letter or a digit somewhere. -/
def isValid (name : String) : Bool :=
  let cs := dropFinal '.' name.toList
  !cs.isEmpty && Utf8.size cs ≤ maxSize
    && cs.any Text.isAlphanumeric && cs.contains '.'
    && (labels name).all fun label => !label.isEmpty && Utf8.size label ≤ maxLabelSize

/-- The fully qualified form of a name: lower case, with a dot at the end. -/
def qualify (name : String) : String :=
  let cs := name.toList
  String.ofList (Text.lowerChars cs ++ if cs.getLast? = some '.' then [] else ['.'])

/-- The form of names in answers: lower case, without dots at the end. -/
def normalize (name : String) : String :=
  String.ofList (Text.lowerChars (dropTrailing (· = '.') name.toList))

/-- Whether `name` equals `domain` or ends in a dot and `domain`, both without
one dot at the end and up to ASCII case. The comparison is octet by octet. -/
def isWithin (domain name : String) : Bool :=
  let inner := (Utf8.encode (dropFinal '.' name.toList)).lower
  let outer := (Utf8.encode (dropFinal '.' domain.toList)).lower
  inner == outer
    || (outer.length < inner.length
      && inner.drop (inner.length - outer.length - 1) == '.'.toUInt8 :: outer)

end SenderPolicy.DomainName
