/-!
# Searching and replacing text

Splitting, trimming and replacing on lists of characters.
-/

namespace Bundler.Text

/-- Whether `needle` begins `text`. -/
def startsWith (needle text : String) : Bool := needle.toList.isPrefixOf text.toList

/-- The text without the leading characters `c`. -/
def trimLeading (c : Char) (text : String) : String :=
  String.ofList (text.toList.dropWhile (· = c))

/-- Every occurrence of `needle`, from the left and not overlapping, replaced by `by_`. The first
argument counts characters of an occurrence that are still to be skipped. -/
def replaceFrom (needle by_ : List Char) : Nat → List Char → List Char
  | _, [] => []
  | 0, c :: rest =>
    if needle.isPrefixOf (c :: rest) then by_ ++ replaceFrom needle by_ (needle.length - 1) rest
    else c :: replaceFrom needle by_ 0 rest
  | skip + 1, _ :: rest => replaceFrom needle by_ skip rest

/-- The text with every occurrence of a nonempty `needle` replaced. -/
def replaceAll (needle by_ text : String) : String :=
  String.ofList (replaceFrom needle.toList by_.toList 0 text.toList)

/-- Letters `A` to `Z` in lower case, all else unchanged. -/
def toAsciiLower (text : String) : String :=
  String.ofList (text.toList.map Char.toLower)

end Bundler.Text
