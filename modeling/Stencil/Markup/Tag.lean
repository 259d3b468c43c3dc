import Stencil.Markup.Entity
import Stencil.Text.Blank

/-!
# Tags

The tags of a sanitised document are rebuilt from what was found: names and attributes come from lists of what is
allowed, and values are decoded and escaped anew. A tag is held as data, and written in one of two forms.
-/

namespace Stencil.Markup

open Pattern

/-! ## What is allowed -/

/-- Tags that are never written, whatever a configuration allows. -/
def forbiddenTags : List Text :=
  ["script", "style", "iframe", "frame", "frameset", "object", "embed", "applet", "template", "noscript", "base",
    "meta", "link", "form", "svg", "math"]

/-- Tags that are allowed without being configured. -/
def defaultTags : List Text :=
  ["p", "br", "hr", "b", "i", "u", "em", "strong", "small", "sub", "sup", "code", "pre", "blockquote", "ul", "ol", "li",
    "dl", "dt", "dd", "h1", "h2", "h3", "h4", "h5", "h6", "a", "img", "table", "thead", "tbody", "tfoot", "tr", "th",
    "td", "caption", "span", "div"].map String.toList

/-- Attributes that are kept. -/
def allowedAttributes : List Text :=
  ["href", "src", "alt", "title", "class", "id", "colspan", "rowspan", "width", "height", "align"]

/-- Attributes that hold an address. -/
def addressAttributes : List Text := ["href", "src"]

/-- Schemes that an address may have. -/
def safeSchemes : List Text := ["http", "https", "mailto"]

/-- An address is safe if it has no scheme, or one of the safe ones. Blanks and controls are passed over, and a colon
behind a slash, a question mark or a hash ends no scheme. -/
def isSafeAddress (address : Text) : Bool :=
  let compact := Text.toLower (address.filter fun c => !(Text.isBlank c || Text.isControl c))
  let scheme := compact.takeWhile (· != ':')
  scheme.length == compact.length || scheme.any (fun c => c == '/' || c == '?' || c == '#') ||
    safeSchemes.contains scheme

/-! ## Text that could be taken for a script -/

/-- The scheme of an address that runs a script; the colon is outside of both groups. -/
def scriptScheme : Pattern :=
  .wordBoundary ++ .group 1 (oneOfWords ["javascript", "vbscript", "livescript"]) ++ .group 2 blanks ++ exactly ':'

/-- The beginning of an attribute that handles an event; the equals sign is outside of both groups. -/
def eventAttribute : Pattern :=
  .wordBoundary ++ .group 1 (word "on" ++ some1 isLetter) ++ .group 2 blanks ++ exactly '='

/-- A text in which no scheme of a script ends with a colon. -/
def breakSchemes (t : Text) : Text := scriptScheme.replaceAll (fun m => m.group 1 ++ m.group 2 ++ "&#58;") t

/-- A text in which no name of an event stands in front of an equals sign. -/
def breakEvents (t : Text) : Text := eventAttribute.replaceAll (fun m => m.group 1 ++ m.group 2 ++ "&#61;") t

/-- A text between tags: no tag begins in it, and it names no script. -/
def neutralize (t : Text) : Text := breakEvents (breakSchemes (t.flatMap fun c => if c == '<' then "&lt;" else [c]))

/-! ## Attributes -/

/-- An attribute that is kept, with its value in decoded form. -/
structure Attribute where
  name : Text
  value : Option Text
deriving DecidableEq, Repr

namespace Attribute

/-- A character in the value of an attribute. -/
def escapeChar (c : Char) : Text :=
  match c with
  | '&' => "&amp;"
  | '<' => "&lt;"
  | '>' => "&gt;"
  | '"' => "&quot;"
  | '\'' => "&#x27;"
  | '=' => "&#61;"
  | '\x60' => "&#96;"
  | c => [c]

/-- The value of an attribute as it is written. -/
def escapeValue (t : Text) : Text := breakSchemes (t.flatMap escapeChar)

/-- An attribute as it is written, with a blank in front. -/
def text (a : Attribute) : Text :=
  match a.value with
  | none => ' ' :: a.name
  | some value => ' ' :: a.name ++ ['=', '"'] ++ escapeValue value ++ ['"']

/-- An attribute in a tag: a name, and a value between quotes of either kind or without quotes. -/
def shape : Pattern :=
  .group 1 (.char (fun c => c.isAlpha || c == '_' || c == ':') ++
    many (fun c => c.isAlphanum || c == '-' || c == '_' || c == ':' || c == '.')) ++
  optionally (blanks ++ exactly '=' ++ blanks ++
    oneOfThese [
      exactly '"' ++ .group 2 (many (· != '"')) ++ exactly '"',
      exactly '\'' ++ .group 3 (many (· != '\'')) ++ exactly '\'',
      .group 4 (some1 fun c =>
        !(Text.isBlank c || c == '"' || c == '\'' || c == '=' || c == '<' || c == '>' || c == '\x60'))])

/-- The value that was found, in whatever quotes. -/
def valueOf (m : Match) : Option Text := ((m.group? 2).or (m.group? 3)).or (m.group? 4)

/-- The attribute that was found, if it is kept: its name is allowed, and an address in it is safe. -/
def ofMatch? (m : Match) : Option Attribute :=
  let name := Text.toLower (m.group 1)
  if name.take 2 == ['o', 'n'] || !allowedAttributes.contains name then none
  else
    let value := (valueOf m).map decodeEntities
    if addressAttributes.contains name && value.any (!isSafeAddress ·) then none else some ⟨name, value⟩

end Attribute

/-! ## Tags -/

/-- A tag that is kept. -/
inductive Tag where
  | closing (name : Text)
  | opening (name : Text) (attributes : List Attribute) (selfClosing : Bool)
deriving DecidableEq, Repr

namespace Tag

/-- A tag as it is written. -/
def text : Tag → Text
  | .closing name => ['<', '/'] ++ name ++ ['>']
  | .opening name attributes selfClosing =>
    '<' :: name ++ attributes.flatMap Attribute.text ++ (if selfClosing then [' ', '/'] else []) ++ ['>']

/-- A tag in a document: its slash, its name, and everything else up to its end. -/
def shape : Pattern :=
  exactly '<' ++ blanks ++ .group 1 (atMostOne (· == '/')) ++ blanks ++
    .group 2 (.char Char.isAlpha ++ many Char.isAlphanum) ++ .group 3 (many fun c => c != '<' && c != '>') ++
    exactly '>'

/-- The tag that was found, if its name is allowed. -/
def ofMatch? (allowed : List Text) (m : Match) : Option Tag :=
  let name := Text.toLower (m.group 2)
  let rest := m.group 3
  if !allowed.contains name then none
  else if !(m.group 1).isEmpty then some (.closing name)
  else
    some (.opening name ((Attribute.shape.findAll rest).filterMap Attribute.ofMatch?)
      ((Text.trimEnd rest).getLast? == some '/'))

end Tag

end Stencil.Markup
