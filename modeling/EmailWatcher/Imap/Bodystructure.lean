import EmailWatcher.Imap.Codecs
import EmailWatcher.Imap.Values
import EmailWatcher.Library.Transaction

-- What the body structure of a message says of its parts.
namespace Imap.Bodystructure

open Octets (decodeReplace utf8)
open Values (maxMimeDepth maxMimeParts)

inductive Raised
  | messageInvalid (code message : String)
  | valueError     (message : String)
  deriving DecidableEq

inductive CodecError
  | lookupError
  | valueError

-- `email.header`, `mimetypes`, the codecs and `str.casefold`.
class Library where
  casefold       : Text → Text
  -- `str(make_header(decode_header(value)))`, unless it raises an exception
  makeHeader     : Text → Option Text
  guessExtension : Text → Option Text
  -- `value.decode(charset, errors="replace")`
  decode         : Text → Octets → Except CodecError Text

variable [Library]

section Atoms

-- `_imap_text`
def imapText : Value → Option Text
  | .atom data   => some (decodeReplace data)
  | .quoted data => some (decodeReplace data)
  | _            => none

-- `_imap_atom`
def imapAtom (value : Value) (field : String) : Except Raised Text :=
  match imapText value with
  | none         => .error (.valueError s!"IMAP {field} is invalid")
  | some decoded =>
    if decoded = [] ∨ decoded.any Text.isSpace then .error (.valueError s!"IMAP {field} is invalid")
    else .ok (Library.casefold decoded)

def maxPersistedAttachmentBytes : Nat := 2 ^ 63 - 1

def isDigit (b : Octet) : Bool :=
  0x30 ≤ b.val && b.val ≤ 0x39

def invalidSize : Raised :=
  .valueError "IMAP body size is invalid"

-- `_imap_size`
def imapSize (value : Value) : Except Raised Nat :=
  match value with
  | .atom data | .quoted data =>
    if data = [] ∨ !data.all isDigit then .error invalidSize
    else if data.length > Codec.maxStrDigits then .error (.valueError "Exceeds the limit for integer string conversion")
    else
      let size := data.foldl (fun n b => n * 10 + (b.val - 0x30)) 0
      if size > maxPersistedAttachmentBytes then .error invalidSize else .ok size
  | _                         => .error invalidSize

abbrev Params := List (Text × Text)

def Params.get (params : Params) (key : Text) : Option Text :=
  (params.find? (·.fst = key)).map Prod.snd

-- `params.setdefault(name, value)`
def Params.setdefault (params : Params) (name value : Text) : Params :=
  if (params.get name).isSome then params else params ++ [(name, value)]

-- The loop of `_imap_params`.
def paramsFrom (params : Params) : List Value → Except Raised Params
  | name :: value :: rest => do
    let name ← imapAtom name "parameter name"
    match imapText value with
    | none       => throw (.valueError "IMAP parameter value is invalid")
    | some value => paramsFrom (params.setdefault name value) rest
  | _                     => .ok params

-- `_imap_params`
def imapParams : Value → Except Raised Params
  | .nil         => .ok []
  | .list values =>
    if values.length % 2 ≠ 0 then .error (.valueError "IMAP parameter list is invalid") else paramsFrom [] values
  | _            => .error (.valueError "IMAP parameter list is invalid")

-- `_imap_disposition`
def imapDisposition : Value → Except Raised (Option Text × Params)
  | .nil                        => .ok (none, [])
  | .list [disposition, params] => do
    return (some (← imapAtom disposition "disposition"), ← imapParams params)
  | _                           => .error (.valueError "IMAP disposition is invalid")

end Atoms

section Names

def apostrophe : CodePoint :=
  '\''

def asterisk : CodePoint :=
  '*'

def percent : Octet :=
  '%'

-- `decode_rfc2231`: the character set, and what is encoded.
def decodeRfc2231 (value : Text) : Option Text × Text :=
  match Fields.partition apostrophe value with
  | (charset, [_], rest) =>
    match Fields.partition apostrophe rest with
    | (_, [_], encoded) => (some charset, encoded)
    | _                 => (none, value)
  | _                    => (none, value)

def hexDigit (b : Octet) : Option Nat :=
  if 0x30 ≤ b.val ∧ b.val ≤ 0x39 then some (b.val - 0x30)
  else if 0x41 ≤ b.val ∧ b.val ≤ 0x46 then some (b.val - 0x37)
  else if 0x61 ≤ b.val ∧ b.val ≤ 0x66 then some (b.val - 0x57)
  else none

def unquote : Octets → Octets
  | b :: h :: l :: rest =>
    match hexDigit h, hexDigit l with
    | some m, some n => if b = percent then Octets.octet (16 * m + n) :: unquote rest else b :: unquote (h :: l :: rest)
    | _,      _      => b :: unquote (h :: l :: rest)
  | bytes               => bytes

-- `unquote_to_bytes`
def unquoteToBytes (value : Text) : Octets :=
  unquote (utf8 value)

-- `value.encode("utf-8", errors="replace")`
def encodeReplace (text : Text) : Octets :=
  utf8 (text.map fun c => if isSurrogate c then ('?' : CodePoint) else c)

-- `_decode_mime_words`
def decodeMimeWords (value : Text) : Text :=
  (Library.makeHeader value).getD value

-- `_decode_rfc2231_bytes`
def decodeRfc2231Bytes (value : Text) : Option Text × Octets :=
  ((decodeRfc2231 value).fst, unquoteToBytes (decodeRfc2231 value).snd)

-- `_decode_parameter_bytes`
def decodeParameterBytes (value : Octets) (charset : Option Text) : Except Raised Text :=
  if (charset.getD []) = [] then .ok (decodeReplace value)
  else
    match Library.decode (charset.getD []) value with
    | .ok text             => .ok text
    | .error .lookupError  => .ok (decodeReplace value)
    | .error .valueError   => .error (.valueError "decoding failed")

-- A match of `segment_pattern`: the digits, and whether the segment is encoded.
def segmentKey (name key : Text) : Option (Text × Bool) :=
  if (name ++ [asterisk]).isPrefixOf key then
    let rest := key.drop (name.length + 1)
    let digits := rest.takeWhile Decimal.isAsciiDigit
    let behind := rest.dropWhile Decimal.isAsciiDigit
    if digits = [] then none
    else if behind = [] then some (digits, false)
    else if behind = [asterisk] then some (digits, true)
    else none
  else none

-- What the loop over the parameters has found.
structure Segments where
  segments  : List (Nat × Bool × Text)
  marker    : Bool
  ambiguous : Bool

def Segments.add (name : Text) (s : Segments) (x : Text × Text) : Segments :=
  match segmentKey name x.fst with
  | none                   => s
  | some (digits, encoded) =>
    match Codec.int digits with
    | .error _  => { s with marker := true, ambiguous := true }
    | .ok index =>
      if index ≥ maxMimeParts ∨ index ∈ s.segments.map Prod.fst then { s with marker := true, ambiguous := true }
      else { s with marker := true, segments := s.segments ++ [(index, encoded, x.snd)] }

-- The bytes of the segments from an index on, and the character set that the first one names.
def segmentBytes (segments : List (Nat × Bool × Text)) : Option Text × Octets :=
  (List.range segments.length).foldl (fun x index =>
    match segments.find? (·.fst = index) with
    | none                     => x
    | some (_, false,   value) => (x.fst, x.snd ++ encodeReplace value)
    | some (_, true,    value) =>
      if index = 0 then ((decodeRfc2231Bytes value).fst, x.snd ++ (decodeRfc2231Bytes value).snd)
      else (x.fst, x.snd ++ unquoteToBytes value)) (none, [])

-- `_extended_parameter`
def extendedParameter (params : Params) (name : Text) : Except Raised (Bool × Option Text) := do
  let exact := params.get name
  let single := params.get (name ++ [asterisk])
  let s := params.foldl (Segments.add name) ⟨[], exact.isSome || single.isSome, false⟩
  if s.segments ≠ [] then
    let ambiguous := s.ambiguous || single.isSome || !(List.range s.segments.length).all (· ∈ s.segments.map Prod.fst)
    if ambiguous then return (true, none)
    let (charset, output) := segmentBytes s.segments
    return (true, some (decodeMimeWords (← decodeParameterBytes output charset)))
  match single, exact with
  | some value, _          =>
    let (charset, decoded) := decodeRfc2231Bytes value
    return (true, some (decodeMimeWords (← decodeParameterBytes decoded charset)))
  | none,       some value => return (true, some (decodeMimeWords value))
  | none,       none       => return (s.marker, none)

end Names

section Heads

def isMultipart : List Value → Bool
  | .list _ :: _ => true
  | _            => false

-- The lists at the start of a structure
def leading : List Value → List (List Value)
  | .list part :: rest => part :: leading rest
  | _                  => []

def textType : Text :=
  ("text" : String)

def messageType : Text :=
  ("message" : String)

-- What is said of a part itself.
structure Head where
  maintype         : Text
  subtype          : Text
  params           : Params
  transferEncoding : Text
  byteSize         : Nat
  filename         : Option Text
  attachment       : Bool

namespace Head

variable (h : Head)

def mediaType : Text :=
  h.maintype ++ ('/' : CodePoint) :: h.subtype

def isMessage : Bool :=
  h.maintype = messageType ∧ h.subtype = (("rfc822" : String) : Text)

def isPlain : Bool :=
  h.subtype = (("plain" : String) : Text)

def isText : Bool :=
  h.maintype = textType ∧ (h.isPlain ∨ h.subtype = (("html" : String) : Text))

end Head

-- `first or second`
def orElse (first second : Option Text) : Option Text :=
  match first with
  | some (_ :: _) => first
  | _             => second

-- Whether a part is an attachment, and which name it has.
def marks (disposition : Option Text × Params) (params : Params) : Except Raised (Bool × Option Text) := do
  let (dispositionMarker, dispositionFilename) ← extendedParameter disposition.snd ("filename" : String)
  let (typeMarker, typeFilename) ← extendedParameter params ("name" : String)
  return (disposition.fst = some ("attachment" : String) || dispositionMarker || typeMarker,
    orElse dispositionFilename typeFilename)

def dispositionAt (value : List Value) (index : Nat) : Except Raised (Option Text × Params) :=
  match value[index]? with
  | some value => imapDisposition value
  | none       => .ok (none, [])

-- The first lines of `visit`, of a part that has parts.
def multipartHead (value : List Value) : Except Raised Head := do
  let childCount := (leading value).length
  match value[childCount]? with
  | none         => throw (.valueError "IMAP multipart structure is invalid")
  | some subtype =>
    let subtype ← imapAtom subtype "multipart subtype"
    let params ← imapParams ((value[childCount + 1]?).getD .nil)
    let disposition ← dispositionAt value (childCount + 2)
    let (attachment, filename) ← marks disposition params
    return {
      maintype         := ("multipart" : String)
      subtype          := subtype
      params           := params
      transferEncoding := ("binary" : String)
      byteSize         := 0
      filename         := filename
      attachment       := attachment
    }

def transferEncodings : List Text :=
  (["7bit", "8bit", "binary", "base64", "quoted-printable"] : List String).map fun name => (name : Text)

def dispositionIndex (maintype subtype : Text) : Nat :=
  if maintype = messageType ∧ subtype = (("rfc822" : String) : Text) then 11
  else if maintype = textType then 9
  else 8

-- The same of a single part.
def singleHead : List Value → Except Raised Head
  | value@(maintype :: subtype :: params :: _ :: _ :: transferEncoding :: byteSize :: _) => do
    let maintype ← imapAtom maintype "media type"
    let subtype ← imapAtom subtype "media subtype"
    let params ← imapParams params
    let transferEncoding ← imapAtom transferEncoding "transfer encoding"
    if transferEncoding ∉ transferEncodings then throw (.valueError "IMAP transfer encoding is unsupported")
    let byteSize ← imapSize byteSize
    let disposition ← dispositionAt value (dispositionIndex maintype subtype)
    let (attachment, filename) ← marks disposition params
    return { maintype, subtype, params, transferEncoding, byteSize, filename, attachment }
  | _ => .error (.valueError "IMAP single-part structure is incomplete")

def head (value : List Value) : Except Raised Head :=
  if isMultipart value then multipartHead value else singleHead value

end Heads

section Visits

-- `AttachmentDescriptor`
structure Descriptor where
  partId       : Text
  attachmentId : Option Text
  filename     : Text
  mediaType    : Text
  byteSize     : Nat
  position     : Nat

-- `_ImapAttachment`
structure Attachment where
  sectionName      : Text
  transferEncoding : Text
  isMultipart      : Bool
  descriptor       : Descriptor

-- `_ImapBodyPart`
structure BodyPart where
  sectionName      : Text
  mediaType        : Text
  transferEncoding : Text
  charset          : Option Text
  byteSize         : Nat

-- An element of the stored tree: a body part, or `_ImapBodyAlternative`.
inductive Stored
  | part        (part : BodyPart)
  | alternative (alternatives : List (List Stored))

-- `_ImapCatalog`
structure Catalog where
  plain       : List BodyPart
  html        : List BodyPart
  attachments : List Attachment
  stored      : List Stored

-- What `visit` changes.
structure Visit where
  plain         : List BodyPart
  html          : List BodyPart
  attachments   : List Attachment
  filenameBytes : Nat
  visited       : Nat

def Visit.start : Visit where
  plain         := []
  html          := []
  attachments   := []
  filenameBytes := 0
  visited       := 0

def maxAttachmentFilenameBytes : Nat := 1024

def maxAttachmentFilenameTotalBytes : Nat := 64 * 1024

def isAlphanumeric (c : CodePoint) : Bool :=
  Decimal.isAsciiDigit c || (0x41 ≤ c.val && c.val ≤ 0x5a) || (0x61 ≤ c.val && c.val ≤ 0x7a)

-- `_SAFE_ATTACHMENT_SUFFIX`
def isSafeSuffix : Text → Bool
  | []      => false
  | c :: cs => c = ('.' : CodePoint) && 1 ≤ cs.length && cs.length ≤ 12 && cs.all isAlphanumeric

-- `_synthesized_attachment_name`
def synthesizedAttachmentName (position : Nat) (mediaType : Text) : Text :=
  let suffix := (Library.guessExtension mediaType).getD []
  let suffix := if isSafeSuffix suffix then suffix else []
  ("attachment-" : String) ++ Decimal.digits (position + 1) ++ Library.casefold suffix

def metadataTooLarge : Raised :=
  .messageInvalid "imap_attachment_metadata_too_large" "Message attachment metadata exceeds the safe size limit"

def Head.selectedName (h : Head) (position : Nat) : Text :=
  (orElse h.filename none).getD (synthesizedAttachmentName position h.mediaType)

def Head.recorded (h : Head) (sectionName : Text) (isMultipart : Bool) (position : Nat) : Attachment where
  sectionName      := sectionName
  transferEncoding := h.transferEncoding
  isMultipart      := isMultipart
  descriptor       := {
    partId       := ("mime-" : String) ++ Decimal.digits position
    attachmentId := none
    filename     := h.selectedName position
    mediaType    := h.mediaType
    byteSize     := h.byteSize
    position     := position
  }

-- `record_attachment`
def Visit.recordAttachment (v : Visit) (h : Head) (sectionName : Text) (isMultipart : Bool) : Except Raised Visit :=
  let position := v.attachments.length
  let selectedBytes := (encodeReplace (h.selectedName position)).length
  let filenameBytes := v.filenameBytes + selectedBytes
  if selectedBytes > maxAttachmentFilenameBytes ∨ filenameBytes > maxAttachmentFilenameTotalBytes then
    .error metadataTooLarge
  else .ok {
    v with
    filenameBytes := filenameBytes
    attachments   := v.attachments ++ [h.recorded sectionName isMultipart position]
  }

def Head.bodyPart (h : Head) (sectionName : Text) : BodyPart where
  sectionName      := sectionName
  mediaType        := h.mediaType
  transferEncoding := h.transferEncoding
  charset          := h.params.get ("charset" : String)
  byteSize         := h.byteSize

def Visit.recordBody (v : Visit) (h : Head) (sectionName : Text) : Visit :=
  if h.isPlain then { v with plain := v.plain ++ [h.bodyPart sectionName] }
  else { v with html := v.html ++ [h.bodyPart sectionName] }

def dot : CodePoint :=
  '.'

def childSection (sectionName : Text) (index : Nat) : Text :=
  if sectionName ≠ [] then sectionName ++ dot :: Decimal.digits index else Decimal.digits index

-- The loop of `visit` over the children of a multipart.
def visitChildren (visit : List Value → Text → Visit → Except Raised (List Stored × Visit)) (sectionName : Text) :
    Nat → List (List Value) → Visit → Except Raised (List (List Stored) × Visit)
  | _,     [],                v => .ok ([], v)
  | index, child :: children, v => do
    let (stored, v) ← visit child (childSection sectionName index) v
    let (rest, v) ← visitChildren visit sectionName (index + 1) children v
    return (stored :: rest, v)

-- The body structure of an embedded message
def nestedBody (value : List Value) : Option (List Value) :=
  match value.drop 8 with
  | .list nested :: _ :: _ => some nested
  | _                      => none

def exceedsLimits : Raised :=
  .valueError "IMAP MIME structure exceeds limits"

-- `visit`, so many levels above the first depth that exceeds the limit.
def visit : Nat → List Value → Text → Visit → Except Raised (List Stored × Visit)
  | 0,        _,     _,           _ => .error exceedsLimits
  | room + 1, value, sectionName, v => do
    let v := { v with visited := v.visited + 1 }
    if v.visited > maxMimeParts ∨ value.isEmpty then throw exceedsLimits
    let h ← head value
    if h.attachment then return ([], ← v.recordAttachment h sectionName (isMultipart value))
    if isMultipart value then
      let (children, v) ← visitChildren (visit room) sectionName 1 (leading value) v
      if h.subtype = (("alternative" : String) : Text) then return ([.alternative children], v)
      return (children.flatten, v)
    if h.isMessage then
      match nestedBody value with
      | some nested =>
        visit room nested (if isMultipart nested then sectionName else sectionName ++ dot :: Decimal.digits 1) v
      | none        => throw (.valueError "IMAP message body structure is invalid")
    else if !h.isText then return ([], v)
    else return ([.part (h.bodyPart sectionName)], v.recordBody h sectionName)

-- `_catalog_from_bodystructure`
def catalogFromBodystructure (bodystructure : List Value) : Except Raised Catalog :=
  let rootSection := if isMultipart bodystructure then [] else Decimal.digits 1
  match visit (maxMimeDepth + 1) bodystructure rootSection .start with
  | .ok (stored, v)                       => .ok ⟨v.plain, v.html, v.attachments, stored⟩
  | .error (.messageInvalid code message) => .error (.messageInvalid code message)
  | .error (.valueError _)                =>
    .error (.messageInvalid "imap_bodystructure_invalid" "Message MIME metadata is invalid")

end Visits

end Imap.Bodystructure
