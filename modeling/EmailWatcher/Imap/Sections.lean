import EmailWatcher.Imap.Bodystructure
import EmailWatcher.Library.Sections
import Mathlib.Data.List.Forall2

-- Which parts a catalog has, and which parts their sections name.
namespace Imap.Bodystructure

open Sections (Before Content Stop Path at? walk walkParts Reached Unnumbered)
open Values (maxMimeDepth maxMimeParts)

section Reading

variable [Library]

-- The media type of a single part
def typeOf : List Value → Option (Text × Text)
  | maintype :: subtype :: _ => do
    return (← (imapAtom maintype "media type").toOption, ← (imapAtom subtype "media subtype").toOption)
  | _                        => none

-- What a body structure says of the parts inside of a part.
def content (value : List Value) : Content (List Value) :=
  if isMultipart value then .multipart (leading value)
  else if typeOf value = some (messageType, (("rfc822" : String) : Text)) then
    match value.drop 8 with
    | .list body :: _ => .message body
    | _               => .single
  else .single

def isAttachment (value : List Value) : Bool :=
  match head value with
  | .ok h    => h.attachment
  | .error _ => false

def isBodyPart (value : List Value) : Bool :=
  match head value with
  | .ok h    => !h.attachment && !isMultipart value && h.isText
  | .error _ => false

def isRecorded (value : List Value) : Bool :=
  isAttachment value || isBodyPart value

end Reading

section Names

-- The numbers of a section
def sectionNumbers (name : Text) : Option (List Nat) :=
  if name = [] then some []
  else if (name.splitOn dot).all Decimal.isdecimal then some ((name.splitOn dot).map Decimal.value)
  else none

def sectionName (ns : List Nat) : Text :=
  [dot].intercalate (ns.map Decimal.digits)

variable {ns : List Nat} {n : Nat}

theorem dot_not_mem_digits : dot ∉ Decimal.digits n := by
  intro h
  have hdigit := Decimal.mem_digits h
  revert hdigit
  decide

theorem sectionName_ne_nil (h : ns ≠ []) : sectionName ns ≠ [] := by
  obtain ⟨n, ns, rfl⟩ := List.exists_cons_of_ne_nil h
  cases ns <;> simp [sectionName, List.intercalate]

-- The numbers that have been written are read again.
theorem sectionNumbers_sectionName : sectionNumbers (sectionName ns) = some ns := by
  by_cases hns : ns = []
  case pos => rw [hns]; rfl
  case neg =>
    have hfields : (sectionName ns).splitOn dot = ns.map Decimal.digits := by
      refine List.splitOn_intercalate _ ?_ (by simpa using hns)
      intro field hfield
      obtain ⟨n, -, rfl⟩ := List.mem_map.mp hfield
      exact dot_not_mem_digits
    have hall : (ns.map Decimal.digits).all Decimal.isdecimal := by simp
    rw [sectionNumbers, if_neg (sectionName_ne_nil hns), hfields, if_pos hall, List.map_map]
    simp [Function.comp_def]

theorem sectionName_concat (h : ns ≠ []) : sectionName (ns ++ [n]) = sectionName ns ++ dot :: Decimal.digits n := by
  induction ns
  case nil          => exact absurd rfl h
  case cons m ns ih =>
    cases ns
    case nil       => simp [sectionName, List.intercalate]
    case cons k ns =>
      have hcons (ks : List Nat) :
          sectionName (m :: k :: ks) = Decimal.digits m ++ dot :: sectionName (k :: ks) := by
        simp [sectionName, List.intercalate_cons_cons]
      have ih := ih (List.cons_ne_nil _ _)
      rw [List.cons_append] at ih
      rw [List.cons_append, List.cons_append, hcons, hcons, ih, List.append_assoc, List.cons_append]

theorem sectionName_append_inj {ms ks : List Nat} (h : sectionName (ns ++ ms) = sectionName (ns ++ ks)) : ms = ks := by
  have hnumbers := congrArg sectionNumbers h
  rw [sectionNumbers_sectionName, sectionNumbers_sectionName] at hnumbers
  exact List.append_cancel_left (Option.some.inj hnumbers)

theorem childSection_sectionName : childSection (sectionName ns) n = sectionName (ns ++ [n]) := by
  by_cases hns : ns = []
  case pos =>
    rw [hns]
    simp [sectionName, childSection, List.intercalate]
  case neg =>
    rw [childSection, if_pos (sectionName_ne_nil hns), sectionName_concat hns]

end Names

section Lists

variable {α β γ : Type} {R S : α → β → Prop} {l : List α} {u : List β}

theorem forall₂_iff {P : α → Prop} (h : List.Forall₂ R l u) (hs : ∀ a ∈ l, ∀ b, R a b → (S a b ↔ P a)) :
    List.Forall₂ S l u ↔ ∀ a ∈ l, P a := by
  induction h
  case nil               => simp
  case cons a b l u hab _ ih =>
    obtain ⟨ha, hl⟩ := List.forall_mem_cons.mp hs
    rw [List.forall₂_cons, List.forall_mem_cons, ih hl, ha b hab]

theorem map_eq_of_forall₂ {f : α → γ} {g : β → γ} (h : List.Forall₂ R l u) (hr : ∀ a b, R a b → g b = f a) :
    u.map g = l.map f := by
  induction h
  case nil                => rfl
  case cons a b l u hab _ ih => rw [List.map_cons, List.map_cons, hr a b hab, ih]

end Lists

section Leaves

mutual

-- The body parts in an element of the stored tree.
def Stored.leaves : Stored → List BodyPart
  | .part part                => [part]
  | .alternative alternatives => alternativesLeaves alternatives

def storedLeaves : List Stored → List BodyPart
  | []              => []
  | stored :: rest => stored.leaves ++ storedLeaves rest

def alternativesLeaves : List (List Stored) → List BodyPart
  | []              => []
  | stored :: rest => storedLeaves stored ++ alternativesLeaves rest

end

theorem storedLeaves_append (xs ys : List Stored) : storedLeaves (xs ++ ys) = storedLeaves xs ++ storedLeaves ys := by
  induction xs
  case nil          => rfl
  case cons x xs ih => rw [List.cons_append, storedLeaves, storedLeaves, ih, List.append_assoc]

theorem storedLeaves_flatten (children : List (List Stored)) :
    storedLeaves children.flatten = alternativesLeaves children := by
  induction children
  case nil                 => rfl
  case cons child rest ih => rw [List.flatten_cons, storedLeaves_append, ih, alternativesLeaves]

end Leaves

section Records

def textPlain : Text :=
  ("text/plain" : String)

def textHtml : Text :=
  ("text/html" : String)

theorem textType_append : textPlain = textType ++ ('/' : CodePoint) :: (("plain" : String) : Text) ∧
    textHtml = textType ++ ('/' : CodePoint) :: (("html" : String) : Text) := by
  decide

theorem plain_ne_html : (("plain" : String) : Text) ≠ (("html" : String) : Text) := by
  decide

theorem textPlain_ne_textHtml : textPlain ≠ textHtml := by
  decide

theorem isText_iff {h : Head} : h.isText ↔ h.mediaType = textPlain ∧ h.isPlain ∧ h.maintype = textType ∨
    h.mediaType = textHtml ∧ h.isPlain = false ∧ h.maintype = textType := by
  simp only [Head.isText, Head.isPlain, Head.mediaType, decide_eq_true_eq, decide_eq_false_iff_not,
    textType_append.left, textType_append.right]
  constructor
  case mp  =>
    rintro ⟨hmain, hplain | hhtml⟩
    · exact .inl ⟨by rw [hmain, hplain], hplain, hmain⟩
    · exact .inr ⟨by rw [hmain, hhtml], fun hplain => plain_ne_html (hplain.symm.trans hhtml), hmain⟩
  case mpr =>
    rintro (⟨-, hplain, hmain⟩ | ⟨hmedia, -, hmain⟩)
    · exact ⟨hmain, .inl hplain⟩
    · rw [hmain] at hmedia
      exact ⟨hmain, .inr (List.cons.inj (List.append_cancel_left hmedia)).right⟩

theorem text_not_message {h : Head} (htext : h.isText) : h.isMessage = false := by
  have hmain : h.maintype = textType := by
    obtain ⟨-, -, hmain⟩ | ⟨-, -, hmain⟩ := isText_iff.mp htext <;> exact hmain
  have hne : textType ≠ messageType := by decide
  simp [Head.isMessage, hmain, hne]

theorem message_not_text {h : Head} (hmessage : h.isMessage) : h.isText = false := by
  cases htext : h.isText
  case false => rfl
  case true  => exact absurd (text_not_message htext) (by simp [hmessage])

variable [Library]

-- An attachment says what is said of a part at a section.
def Attaches (ns : List Nat) (s : Stop (List Value)) (a : Attachment) : Prop :=
  ∃ h, head s.part = .ok h ∧ a = h.recorded (sectionName (ns ++ s.numbers)) (isMultipart s.part) a.descriptor.position

def Holds (ns : List Nat) (s : Stop (List Value)) (part : BodyPart) : Prop :=
  ∃ h, head s.part = .ok h ∧ part = h.bodyPart (sectionName (ns ++ s.numbers))

-- Attachments are numbered from zero on.
def Positioned (attachments : List Attachment) : Prop :=
  ∀ i a, attachments[i]? = some a →
    a.descriptor.position = i ∧ a.descriptor.partId = (("mime-" : String) : Text) ++ Decimal.digits i

-- What has been recorded between two states are some stops.
structure Records (ns : List Nat) (stops : List (Stop (List Value))) (v v' : Visit) (leaves : List BodyPart) :
    Prop where
  attachments : ∃ made, v'.attachments = v.attachments ++ made ∧
    List.Forall₂ (Attaches ns) (stops.filter (isAttachment ·.part)) made
  bodies      : List.Forall₂ (Holds ns) (stops.filter (isBodyPart ·.part)) leaves
  plain       : v'.plain = v.plain ++ leaves.filter (·.mediaType = textPlain)
  html        : v'.html = v.html ++ leaves.filter (·.mediaType = textHtml)
  positions   : Positioned v.attachments → Positioned v'.attachments
  few         : v.visited + stops.length ≤ v'.visited
  bounded     : v.visited ≤ maxMimeParts → v'.visited ≤ maxMimeParts

variable {ns ms : List Nat} {stops stops' : List (Stop (List Value))} {v v' v'' : Visit}
  {leaves leaves' : List BodyPart} {value : List Value} {h : Head} {name : Text} {i room : Nat}

theorem Records.nil : Records ns [] v v [] where
  attachments := ⟨[], by simp⟩
  bodies      := .nil
  plain       := by simp
  html        := by simp
  positions   := id
  few         := le_rfl
  bounded     := id

theorem Records.append (h : Records ns stops v v' leaves) (h' : Records ns stops' v' v'' leaves') :
    Records ns (stops ++ stops') v v'' (leaves ++ leaves') where
  attachments := by
    obtain ⟨made, hmade, hattaches⟩ := h.attachments
    obtain ⟨made', hmade', hattaches'⟩ := h'.attachments
    refine ⟨made ++ made', by rw [hmade', hmade, List.append_assoc], ?_⟩
    rw [List.filter_append]
    exact List.rel_append hattaches hattaches'
  bodies      := by
    rw [List.filter_append]
    exact List.rel_append h.bodies h'.bodies
  plain       := by rw [h'.plain, h.plain, List.filter_append, List.append_assoc]
  html        := by rw [h'.html, h.html, List.filter_append, List.append_assoc]
  positions   := h'.positions ∘ h.positions
  few         := by
    rw [List.length_append, ← Nat.add_assoc]
    exact (Nat.add_le_add_right h.few _).trans h'.few
  bounded     := h'.bounded ∘ h.bounded

-- Another part has been visited before.
theorem Records.counted (h : Records ns stops { v with visited := v.visited + 1 } v' leaves)
    (hmax : v.visited + 1 ≤ maxMimeParts) : Records ns stops v v' leaves where
  attachments := h.attachments
  bodies      := h.bodies
  plain       := h.plain
  html        := h.html
  positions   := h.positions
  few         := (Nat.add_le_add_right (Nat.le_succ _) _).trans h.few
  bounded     := fun _ => h.bounded hmax

-- What is recorded of a part is recorded of the one that it stands in.
theorem Records.under (h : Records (ns ++ ms) stops v v' leaves) :
    Records ns (stops.map (Stop.under i ms)) v v' leaves where
  attachments := by
    obtain ⟨made, hmade, hattaches⟩ := h.attachments
    refine ⟨made, hmade, ?_⟩
    rw [List.filter_map, List.forall₂_map_left_iff]
    refine hattaches.imp ?_
    rintro s a ⟨h, hhead, ha⟩
    exact ⟨h, hhead, by rwa [List.append_assoc] at ha⟩
  bodies      := by
    rw [List.filter_map, List.forall₂_map_left_iff]
    refine h.bodies.imp ?_
    rintro s a ⟨h, hhead, ha⟩
    exact ⟨h, hhead, by rwa [List.append_assoc] at ha⟩
  plain       := h.plain
  html        := h.html
  positions   := h.positions
  few         := by
    rw [List.length_map]
    exact h.few
  bounded     := h.bounded

theorem recordAttachment_eq_ok (h' : v.recordAttachment h name b = .ok v') :
    v'.attachments = v.attachments ++ [h.recorded name b v.attachments.length] ∧ v'.plain = v.plain ∧
    v'.html = v.html ∧ v'.visited = v.visited := by
  simp only [Visit.recordAttachment] at h'
  split at h'
  case isTrue  => cases h'
  case isFalse =>
    obtain rfl := Except.ok.inj h'
    exact ⟨rfl, rfl, rfl, rfl⟩

theorem Positioned.concat {attachments : List Attachment} (hp : Positioned attachments) :
    Positioned (attachments ++ [h.recorded name b attachments.length]) := by
  intro i a ha
  rw [List.getElem?_append] at ha
  split at ha
  case isTrue  => exact hp i a ha
  case isFalse hi =>
    rw [List.getElem?_singleton] at ha
    split at ha
    case isTrue hi'  =>
      obtain rfl : i = attachments.length := by omega
      obtain rfl := Option.some.inj ha
      exact ⟨rfl, rfl⟩
    case isFalse => cases ha

theorem records_attachment (hhead : head value = .ok h) (hattachment : h.attachment)
    (hmax : v.visited + 1 ≤ maxMimeParts)
    (hv : { v with visited := v.visited + 1 }.recordAttachment h (sectionName ns) (isMultipart value) = .ok v') :
    Records ns [⟨[], [], value⟩] v v' [] := by
  obtain ⟨hattachments, hplain, hhtml, hvisited⟩ := recordAttachment_eq_ok hv
  have hattach : isAttachment value = true := by rw [isAttachment, hhead]; exact hattachment
  have hbody : isBodyPart value = false := by rw [isBodyPart, hhead]; simp [hattachment]
  constructor
  case attachments =>
    refine ⟨_, hattachments, ?_⟩
    rw [List.filter_cons_of_pos (by simpa using hattach), List.filter_nil]
    refine .cons ⟨h, hhead, ?_⟩ .nil
    rw [List.append_nil]
    rfl
  case bodies    =>
    rw [List.filter_cons_of_neg (by simp [hbody]), List.filter_nil]
    exact .nil
  case plain     => simp [hplain]
  case html      => simp [hhtml]
  case positions =>
    intro hp
    rw [hattachments]
    exact hp.concat
  case few       => exact hvisited.ge
  case bounded   => exact fun _ => hvisited.trans_le hmax

theorem records_body (hhead : head value = .ok h) (hattachment : h.attachment = false)
    (hmultipart : isMultipart value = false) (htext : h.isText) (hmax : v.visited + 1 ≤ maxMimeParts)
    (hv : v' = { v with visited := v.visited + 1 }.recordBody h (sectionName ns)) :
    Records ns [⟨[], [], value⟩] v v' [h.bodyPart (sectionName ns)] := by
  have hattach : isAttachment value = false := by rw [isAttachment, hhead]; exact hattachment
  have hbody : isBodyPart value = true := by rw [isBodyPart, hhead]; simp [hattachment, hmultipart, htext]
  have hmedia : (h.bodyPart (sectionName ns)).mediaType = h.mediaType := rfl
  have hkept : v'.attachments = v.attachments ∧ v'.visited = v.visited + 1 := by
    rw [hv, Visit.recordBody]
    split <;> exact ⟨rfl, rfl⟩
  constructor
  case attachments =>
    refine ⟨[], by rw [hkept.left, List.append_nil], ?_⟩
    rw [List.filter_cons_of_neg (by simp [hattach]), List.filter_nil]
    exact .nil
  case bodies    =>
    rw [List.filter_cons_of_pos (by simpa using hbody), List.filter_nil]
    refine .cons ⟨h, hhead, ?_⟩ .nil
    rw [List.append_nil]
  case plain     =>
    obtain ⟨htype, hplain, -⟩ | ⟨htype, hplain, -⟩ := isText_iff.mp htext
    · simp [hv, Visit.recordBody, hplain, hmedia, htype]
    · simp [hv, Visit.recordBody, hplain, hmedia, htype, textPlain_ne_textHtml.symm]
  case html      =>
    obtain ⟨htype, hplain, -⟩ | ⟨htype, hplain, -⟩ := isText_iff.mp htext
    · simp [hv, Visit.recordBody, hplain, hmedia, htype, textPlain_ne_textHtml]
    · simp [hv, Visit.recordBody, hplain, hmedia, htype]
  case positions =>
    rw [hkept.left]
    exact id
  case few       => exact hkept.right.ge
  case bounded   => exact fun _ => hkept.right.trans_le hmax

-- What a visit of a part has recorded, and how deep it has gone.
structure Visits (room : Nat) (value : List Value) (ns : List Nat) (v v' : Visit) (stored : List Stored) : Prop where
  records : Records ns (walk content isRecorded room value) v v' (storedLeaves stored)
  deep    : ∀ p, Reached content isRecorded value p → p.length < room

theorem visitChildren_records {visit : List Value → Text → Visit → Except Raised (List Stored × Visit)}
    {children : List (List Value)} {rest : List (List Stored)}
    (hvisit : ∀ value ns v v' stored, (isMultipart value ∨ ns ≠ []) →
      visit value (sectionName ns) v = .ok (stored, v') → Visits room value ns v v' stored)
    (h : visitChildren visit (sectionName ns) (i + 1) children v = .ok (rest, v')) :
    Records ns (walkParts (walk content isRecorded room) i children) v v' (alternativesLeaves rest) ∧
    ∀ child ∈ children, ∀ p, Reached content isRecorded child p → p.length < room := by
  induction children generalizing i v rest
  case nil                     =>
    obtain ⟨rfl, rfl⟩ := Prod.mk.inj (Except.ok.inj h)
    exact ⟨.nil, by simp⟩
  case cons child children ih =>
    rw [visitChildren, Transaction.bind_eq_ok] at h
    obtain ⟨⟨stored, u⟩, hchild, h⟩ := h
    obtain ⟨⟨rest', u'⟩, hrest, h⟩ := Transaction.bind_eq_ok.mp h
    obtain ⟨rfl, rfl⟩ := Prod.mk.inj (Except.ok.inj h)
    rw [childSection_sectionName] at hchild
    obtain ⟨hrecords, hdeep⟩ := hvisit child _ _ _ _ (.inr (by simp)) hchild
    obtain ⟨hrecords', hdeep'⟩ := ih hrest
    exact ⟨hrecords.under.append hrecords', List.forall_mem_cons.mpr ⟨hdeep, hdeep'⟩⟩

theorem typeOf_eq (hhead : singleHead value = .ok h) : typeOf value = some (h.maintype, h.subtype) := by
  rw [singleHead.eq_def] at hhead
  split at hhead
  case h_2 => cases hhead
  case h_1 =>
    obtain ⟨maintype, hmaintype, hhead⟩ := Transaction.bind_eq_ok.mp hhead
    obtain ⟨subtype, hsubtype, hhead⟩ := Transaction.bind_eq_ok.mp hhead
    obtain ⟨params, -, hhead⟩ := Transaction.bind_eq_ok.mp hhead
    obtain ⟨transferEncoding, -, hhead⟩ := Transaction.bind_eq_ok.mp hhead
    split at hhead
    case isTrue  => cases hhead
    case isFalse =>
      obtain ⟨byteSize, -, hhead⟩ := Transaction.bind_eq_ok.mp hhead
      obtain ⟨disposition, -, hhead⟩ := Transaction.bind_eq_ok.mp hhead
      obtain ⟨marks, -, hhead⟩ := Transaction.bind_eq_ok.mp hhead
      obtain rfl := Except.ok.inj hhead
      rw [typeOf, hmaintype, hsubtype]
      rfl

-- What a visit does that returns.
inductive Step (room : Nat) (value : List Value) (name : Text) (v v' : Visit) (stored : List Stored) (h : Head) : Prop
  | attachment : h.attachment → v.recordAttachment h name (isMultipart value) = .ok v' → stored = [] →
    Step room value name v v' stored h
  | multipart (children : List (List Stored)) : h.attachment = false → isMultipart value →
    visitChildren (visit room) name 1 (leading value) v = .ok (children, v') →
    storedLeaves stored = alternativesLeaves children → Step room value name v v' stored h
  | message (nested : List Value) : h.attachment = false → isMultipart value = false → h.isMessage →
    nestedBody value = some nested →
    visit room nested (if isMultipart nested then name else name ++ dot :: Decimal.digits 1) v = .ok (stored, v') →
    Step room value name v v' stored h
  | text : h.attachment = false → isMultipart value = false → h.isText → stored = [.part (h.bodyPart name)] →
    v' = v.recordBody h name → Step room value name v v' stored h
  | other : h.attachment = false → isMultipart value = false → h.isMessage = false → h.isText = false → stored = [] →
    v' = v → Step room value name v v' stored h

theorem visit_step {stored : List Stored} (hvisit : visit (room + 1) value name v = .ok (stored, v')) :
    v.visited + 1 ≤ maxMimeParts ∧
    ∃ h, head value = .ok h ∧ Step room value name { v with visited := v.visited + 1 } v' stored h := by
  rw [visit] at hvisit
  simp only at hvisit
  split at hvisit
  case isTrue  => cases hvisit
  case isFalse hlimits =>
    obtain ⟨h, hhead, hvisit⟩ := Transaction.bind_eq_ok.mp hvisit
    refine ⟨Nat.not_lt.mp (not_or.mp hlimits).left, h, hhead, ?_⟩
    split at hvisit
    case isTrue hattachment  =>
      obtain ⟨u, hu, hvisit⟩ := Transaction.bind_eq_ok.mp hvisit
      obtain ⟨rfl, rfl⟩ := Prod.mk.inj (Except.ok.inj hvisit)
      exact .attachment hattachment hu rfl
    case isFalse hattachment =>
      have hattachment : h.attachment = false := by simpa using hattachment
      split at hvisit
      case isTrue hmultipart  =>
        obtain ⟨⟨children, u⟩, hchildren, hvisit⟩ := Transaction.bind_eq_ok.mp hvisit
        simp only at hvisit
        split at hvisit
        case isTrue  =>
          obtain ⟨rfl, rfl⟩ := Prod.mk.inj (Except.ok.inj hvisit)
          refine .multipart children hattachment hmultipart hchildren ?_
          rw [storedLeaves, Stored.leaves, storedLeaves, List.append_nil]
        case isFalse =>
          obtain ⟨rfl, rfl⟩ := Prod.mk.inj (Except.ok.inj hvisit)
          exact .multipart children hattachment hmultipart hchildren (storedLeaves_flatten children)
      case isFalse hmultipart =>
        have hmultipart : isMultipart value = false := by simpa using hmultipart
        split at hvisit
        case isTrue hmessage  =>
          split at hvisit
          case h_1 nested hnested => exact .message nested hattachment hmultipart hmessage hnested hvisit
          case h_2                => cases hvisit
        case isFalse hmessage =>
          have hmessage : h.isMessage = false := by simpa using hmessage
          split at hvisit
          case isTrue htext  =>
            obtain ⟨rfl, rfl⟩ := Prod.mk.inj (Except.ok.inj hvisit)
            exact .other hattachment hmultipart hmessage (by simpa using htext) rfl rfl
          case isFalse htext =>
            obtain ⟨rfl, rfl⟩ := Prod.mk.inj (Except.ok.inj hvisit)
            exact .text hattachment hmultipart (by simpa using htext) rfl rfl

theorem isRecorded_eq (hhead : head value = .ok h) :
    isRecorded value = (h.attachment || !h.attachment && !isMultipart value && h.isText) := by
  rw [isRecorded, isAttachment, isBodyPart, hhead]

theorem content_multipart (hmultipart : isMultipart value) : content value = .multipart (leading value) := by
  rw [content, if_pos hmultipart]

theorem typeOf_head (hhead : head value = .ok h) (hmultipart : isMultipart value = false) :
    typeOf value = some (h.maintype, h.subtype) := by
  rw [head, hmultipart] at hhead
  exact typeOf_eq hhead

theorem content_single (hhead : head value = .ok h) (hmultipart : isMultipart value = false)
    (hmessage : h.isMessage = false) : content value = .single := by
  have htype : ¬typeOf value = some (messageType, (("rfc822" : String) : Text)) := by
    rw [typeOf_head hhead hmultipart]
    intro htype
    obtain ⟨hmain, hsub⟩ := Prod.mk.inj (Option.some.inj htype)
    simp [Head.isMessage, hmain, hsub] at hmessage
  rw [content, hmultipart, if_neg Bool.false_ne_true, if_neg htype]

theorem content_message {nested : List Value} (hhead : head value = .ok h) (hmultipart : isMultipart value = false)
    (hmessage : h.isMessage) (hnested : nestedBody value = some nested) : content value = .message nested := by
  have htype : typeOf value = some (messageType, (("rfc822" : String) : Text)) := by
    simp only [Head.isMessage, decide_eq_true_eq] at hmessage
    rw [typeOf_head hhead hmultipart, hmessage.left, hmessage.right]
  rw [content, hmultipart, if_neg Bool.false_ne_true, if_pos htype]
  rw [nestedBody] at hnested
  split at hnested
  case h_1 body _ _ hdrop =>
    obtain rfl := Option.some.inj hnested
    rw [hdrop]
  case h_2                => cases hnested

theorem isMultipart_content : Sections.isMultipart content value = isMultipart value := by
  cases hmultipart : isMultipart value
  case true  => rw [Sections.isMultipart, content_multipart hmultipart]
  case false =>
    rw [Sections.isMultipart, content, hmultipart, if_neg Bool.false_ne_true]
    by_cases htype : typeOf value = some (messageType, (("rfc822" : String) : Text))
    case neg => rw [if_neg htype]
    case pos =>
      rw [if_pos htype]
      cases value.drop 8
      case nil         => rfl
      case cons x rest => cases x <;> rfl

-- Of a part that stops a walk nothing is reached but itself.
theorem reached_stop {p : Path} (hstop : isRecorded value) (hp : Reached content isRecorded value p) : p = [] := by
  cases p
  case nil      => rfl
  case cons i p => exact absurd hstop (by simp [hp.left])

-- A visit records the stops of a walk.
theorem visit_records {stored : List Stored} (hname : isMultipart value ∨ ns ≠ [])
    (hvisit : visit room value (sectionName ns) v = .ok (stored, v')) : Visits room value ns v v' stored := by
  induction room generalizing value ns v v' stored
  case zero         => cases hvisit
  case succ room ih =>
    obtain ⟨hmax, h, hhead, hstep⟩ := visit_step hvisit
    have hrecorded := isRecorded_eq hhead
    cases hstep
    case attachment hattachment hv hstored                         =>
      subst hstored
      have hstop : isRecorded value = true := by rw [hrecorded, hattachment]; rfl
      have hrecords := records_attachment hhead hattachment hmax hv
      constructor
      case records =>
        rw [Sections.walk_stop hstop]
        exact hrecords
      case deep    =>
        intro p hp
        rw [reached_stop hstop hp]
        exact Nat.succ_pos _
    case multipart children hattachment hmultipart hchildren hleaves =>
      have hpass : isRecorded value = false := by rw [hrecorded, hattachment, hmultipart]; rfl
      obtain ⟨hrecords, hdeep⟩ := visitChildren_records (fun _ _ _ _ _ => ih) hchildren
      constructor
      case records =>
        rw [Sections.walk_pass hpass, content_multipart hmultipart, hleaves]
        exact hrecords.counted hmax
      case deep    =>
        intro p hp
        cases p
        case nil      => exact Nat.succ_pos _
        case cons i p =>
          obtain ⟨-, child, hchild, hp⟩ := hp
          rw [Sections.parts, content_multipart hmultipart] at hchild
          exact Nat.succ_lt_succ (hdeep child (List.mem_of_getElem? hchild) p hp)
    case message nested hattachment hmultipart hmessage hnested hv   =>
      have hpass : isRecorded value = false := by
        rw [hrecorded, hattachment, message_not_text hmessage, Bool.and_false]
        rfl
      have hns : ns ≠ [] := hname.resolve_left (by simp [hmultipart])
      have hcontent := content_message hhead hmultipart hmessage hnested
      have hnumbers : (if isMultipart nested then sectionName ns else sectionName ns ++ dot :: Decimal.digits 1) =
          sectionName (ns ++ Sections.bodyNumbers content nested) := by
        rw [Sections.bodyNumbers, isMultipart_content]
        split
        case isTrue  => rw [List.append_nil]
        case isFalse => rw [sectionName_concat hns]
      rw [hnumbers] at hv
      obtain ⟨hrecords, hdeep⟩ := ih (.inr (by simp [hns])) hv
      have hrecords := @Records.under _ _ _ _ _ _ _ 0 hrecords
      constructor
      case records =>
        rw [Sections.walk_pass hpass, hcontent]
        exact hrecords.counted hmax
      case deep    =>
        intro p hp
        cases p
        case nil      => exact Nat.succ_pos _
        case cons i p =>
          obtain ⟨-, body, hbody, hp⟩ := hp
          rw [Sections.parts, hcontent] at hbody
          obtain rfl := List.mem_singleton.mp (List.mem_of_getElem? hbody)
          exact Nat.succ_lt_succ (hdeep p hp)
    case text hattachment hmultipart htext hstored hv                =>
      subst hstored
      have hstop : isRecorded value = true := by rw [hrecorded, hattachment, hmultipart, htext]; rfl
      have hrecords := records_body hhead hattachment hmultipart htext hmax hv
      constructor
      case records =>
        rw [Sections.walk_stop hstop]
        exact hrecords
      case deep    =>
        intro p hp
        rw [reached_stop hstop hp]
        exact Nat.succ_pos _
    case other hattachment hmultipart hmessage htext hstored hv      =>
      subst hstored hv
      have hpass : isRecorded value = false := by rw [hrecorded, hattachment, htext, Bool.and_false]; rfl
      have hcontent := content_single hhead hmultipart hmessage
      constructor
      case records =>
        rw [Sections.walk_pass hpass, hcontent]
        exact Records.nil.counted hmax
      case deep    =>
        intro p hp
        cases p
        case nil      => exact Nat.succ_pos _
        case cons i p =>
          obtain ⟨-, body, hbody, -⟩ := hp
          rw [Sections.parts, hcontent] at hbody
          cases hbody

end Records

section Catalogs

variable [Library]

-- Where the part stands that a section names.
def denoted (root : List Value) (name : Text) : Option Path :=
  (sectionNumbers name).bind (Sections.resolve content root)

-- What a catalog has of the parts at some paths, which are those of the attachments and of the body parts.
structure Catalogued (root : List Value) (catalog : Catalog) (attached bodied : List Path) : Prop where
  attachments : List.Forall₂ (fun p a => ∃ value h, at? content root p = some value ∧ head value = .ok h ∧
    a = h.recorded a.sectionName (isMultipart value) a.descriptor.position) attached catalog.attachments
  bodies      : List.Forall₂ (fun p b => ∃ value h, at? content root p = some value ∧ head value = .ok h ∧
    b = h.bodyPart b.sectionName) bodied (storedLeaves catalog.stored)
  attachedAt  : ∀ p, p ∈ attached ↔ Reached content isRecorded root p ∧
    ∃ value, at? content root p = some value ∧ isAttachment value
  bodiedAt    : ∀ p, p ∈ bodied ↔ Reached content isRecorded root p ∧
    ∃ value, at? content root p = some value ∧ isBodyPart value
  ordered     : attached.Pairwise Before ∧ bodied.Pairwise Before
  outside     : ∀ p ∈ attached, ∀ q ∈ attached ++ bodied, p <+: q → p = q
  distinct    : (catalog.attachments.map (·.sectionName) ++ (storedLeaves catalog.stored).map (·.sectionName)).Nodup
  positions   : Positioned catalog.attachments
  plain       : catalog.plain = (storedLeaves catalog.stored).filter (·.mediaType = textPlain)
  html        : catalog.html = (storedLeaves catalog.stored).filter (·.mediaType = textHtml)
  deep        : ∀ p, Reached content isRecorded root p → p.length ≤ maxMimeDepth
  few         : attached.length + bodied.length ≤ maxMimeParts

-- The section of each of them names it.
structure Addressed (root : List Value) (catalog : Catalog) (attached bodied : List Path) : Prop where
  attachments : List.Forall₂ (fun p a => denoted root a.sectionName = some p) attached catalog.attachments
  bodies      : List.Forall₂ (fun p b => denoted root b.sectionName = some p) bodied (storedLeaves catalog.stored)

variable {root : List Value} {catalog : Catalog} {attached bodied : List Path} {ns : List Nat}

-- The stops of a body structure
def stopsOf (root : List Value) : List (Stop (List Value)) :=
  walk content isRecorded (maxMimeDepth + 1) root

theorem catalog_visits (h : catalogFromBodystructure root = .ok catalog) :
    ∃ v, Visits (maxMimeDepth + 1) root (Sections.bodyNumbers content root) .start v catalog.stored ∧
      catalog.plain = v.plain ∧ catalog.html = v.html ∧ catalog.attachments = v.attachments := by
  have hname : (if isMultipart root then [] else Decimal.digits 1) =
      sectionName (Sections.bodyNumbers content root) := by
    rw [Sections.bodyNumbers, isMultipart_content]
    split
    case isTrue  => rfl
    case isFalse => simp [sectionName, List.intercalate]
  have hroot : isMultipart root ∨ Sections.bodyNumbers content root ≠ [] := by
    rw [Sections.bodyNumbers, isMultipart_content]
    cases isMultipart root <;> simp
  rw [catalogFromBodystructure, hname] at h
  split at h
  case h_1 stored v hvisit =>
    obtain rfl := Except.ok.inj h
    exact ⟨v, visit_records hroot hvisit, rfl, rfl, rfl⟩
  case h_2 => cases h
  case h_3 => cases h

theorem Attaches.sectionName {s : Stop (List Value)} {a : Attachment} (h : Attaches ns s a) :
    a.sectionName = Bodystructure.sectionName (ns ++ s.numbers) := by
  obtain ⟨h, -, ha⟩ := h
  rw [ha]
  rfl

theorem Holds.sectionName {s : Stop (List Value)} {b : BodyPart} (h : Holds ns s b) :
    b.sectionName = Bodystructure.sectionName (ns ++ s.numbers) := by
  obtain ⟨h, -, hb⟩ := h
  rw [hb]
  rfl

-- The stops that are attachments, and the ones that are body parts.
def pathsOf (stops : List (Stop (List Value))) (p : List Value → Bool) : List Path :=
  (stops.filter (p ·.part)).map (·.path)

theorem mem_pathsOf {p : List Value → Bool} {path : Path} (hp : ∀ value, p value → isRecorded value)
    (hdeep : ∀ path, Reached content isRecorded root path → path.length < maxMimeDepth + 1) :
    path ∈ pathsOf (stopsOf root) p ↔ Reached content isRecorded root path ∧
      ∃ value, at? content root path = some value ∧ p value := by
  rw [pathsOf, List.mem_map]
  constructor
  case mp  =>
    rintro ⟨s, hs, rfl⟩
    obtain ⟨hs, hpart⟩ := List.mem_filter.mp hs
    obtain ⟨hat, -, hreached⟩ := Sections.reached_of_mem hs
    exact ⟨hreached, s.part, hat, hpart⟩
  case mpr =>
    rintro ⟨hreached, value, hvalue, hpart⟩
    obtain ⟨s, hs, rfl⟩ := Sections.mem_of_reached hreached hvalue (hp value hpart) (hdeep path hreached)
    obtain ⟨hat, -, -⟩ := Sections.reached_of_mem hs
    obtain rfl := Option.some.inj (hvalue.symm.trans hat)
    exact ⟨s, List.mem_filter.mpr ⟨hs, hpart⟩, rfl⟩

theorem isAttachment_isRecorded {value : List Value} (h : isAttachment value) : isRecorded value := by
  rw [isRecorded, h, Bool.true_or]

theorem isBodyPart_isRecorded {value : List Value} (h : isBodyPart value) : isRecorded value := by
  rw [isRecorded, h, Bool.or_true]

theorem not_attachment_of_body {value : List Value} (h : isBodyPart value) : isAttachment value = false := by
  rw [isBodyPart] at h
  rw [isAttachment]
  cases hhead : head value
  case error  => rfl
  case ok x   =>
    rw [hhead] at h
    simp only [Bool.and_eq_true, Bool.not_eq_true'] at h
    exact h.left.left

theorem pathsOf_before {p : List Value → Bool} : (pathsOf (stopsOf root) p).Pairwise Before :=
  List.pairwise_map.mpr (Sections.walk_before.filter _)

theorem length_pathsOf_add : (pathsOf (stopsOf root) isAttachment).length + (pathsOf (stopsOf root) isBodyPart).length ≤
    (stopsOf root).length := by
  have hsublist := List.monotone_filter_right (stopsOf root) (p := (isBodyPart ·.part)) (q := (!isAttachment ·.part))
    fun s hs => by simp [not_attachment_of_body hs]
  have hlength := List.length_eq_length_filter_add (l := stopsOf root) (isAttachment ·.part)
  rw [pathsOf, pathsOf, List.length_map, List.length_map, hlength]
  exact Nat.add_le_add_left hsublist.length_le _

-- A catalog has the stops of its body structure.
theorem catalogued (h : catalogFromBodystructure root = .ok catalog) :
    Catalogued root catalog (pathsOf (stopsOf root) isAttachment) (pathsOf (stopsOf root) isBodyPart) := by
  obtain ⟨v, ⟨hrecords, hdeep⟩, hplain, hhtml, hattachments⟩ := catalog_visits h
  obtain ⟨made, hmade, hattaches⟩ := hrecords.attachments
  rw [Visit.start, List.nil_append, ← hattachments] at hmade
  subst hmade
  have hat (s : Stop (List Value)) (hs : s ∈ stopsOf root) : at? content root s.path = some s.part :=
    (Sections.reached_of_mem hs).left
  constructor
  case attachments =>
    rw [pathsOf, List.forall₂_map_left_iff]
    have hall := (List.forall₂_and_left _ _).mpr ⟨fun s hs => hat s (List.mem_of_mem_filter hs), hattaches⟩
    refine hall.imp ?_
    rintro s a ⟨hat, hattaches⟩
    obtain ⟨h, hhead, ha⟩ := hattaches
    exact ⟨s.part, h, hat, hhead, ha.trans (by rw [ha]; rfl)⟩
  case bodies      =>
    rw [pathsOf, List.forall₂_map_left_iff]
    have hall := (List.forall₂_and_left _ _).mpr ⟨fun s hs => hat s (List.mem_of_mem_filter hs), hrecords.bodies⟩
    refine hall.imp ?_
    rintro s b ⟨hat, h, hhead, hb⟩
    exact ⟨s.part, h, hat, hhead, hb.trans (by rw [hb]; rfl)⟩
  case attachedAt  => exact fun p => mem_pathsOf (fun _ => isAttachment_isRecorded) hdeep
  case bodiedAt    => exact fun p => mem_pathsOf (fun _ => isBodyPart_isRecorded) hdeep
  case ordered     => exact ⟨pathsOf_before, pathsOf_before⟩
  case outside     =>
    intro p hp q hq hpre
    have hstop : ∀ p ∈ pathsOf (stopsOf root) isAttachment ++ pathsOf (stopsOf root) isBodyPart,
        ∃ s ∈ stopsOf root, s.path = p := by
      intro p hp
      obtain hp | hp := List.mem_append.mp hp
      all_goals
        obtain ⟨s, hs, rfl⟩ := List.mem_map.mp hp
        exact ⟨s, List.mem_of_mem_filter hs, rfl⟩
    obtain ⟨s, hs, rfl⟩ := hstop p (List.mem_append_left _ hp)
    obtain ⟨t, ht, rfl⟩ := hstop q hq
    obtain rfl | hapart := Sections.eq_or_apart hs ht
    · rfl
    · exact absurd hpre hapart.left.left
  case distinct    =>
    have hsection : ∀ s ∈ stopsOf root, ∀ t ∈ stopsOf root,
        sectionName (Sections.bodyNumbers content root ++ s.numbers) =
          sectionName (Sections.bodyNumbers content root ++ t.numbers) → s = t := by
      intro s hs t ht heq
      exact (Sections.eq_or_apart hs ht).resolve_right fun h => h.right (sectionName_append_inj heq)
    have hnodup : (stopsOf root).Nodup := Sections.walk_numbers.imp fun h heq => h (congrArg Stop.numbers heq)
    have hmem {p : List Value → Bool} {s : Stop (List Value)} (hs : s ∈ (stopsOf root).filter (p ·.part)) :
        s ∈ stopsOf root := List.mem_of_mem_filter hs
    rw [map_eq_of_forall₂ hattaches fun s a => Attaches.sectionName,
      map_eq_of_forall₂ hrecords.bodies fun s b => Holds.sectionName, List.nodup_append]
    refine ⟨(hnodup.filter _).map_on fun s hs t ht => hsection s (hmem hs) t (hmem ht),
      (hnodup.filter _).map_on fun s hs t ht => hsection s (hmem hs) t (hmem ht), ?_⟩
    intro x hx y hy heq
    obtain ⟨s, hs, rfl⟩ := List.mem_map.mp hx
    obtain ⟨t, ht, rfl⟩ := List.mem_map.mp hy
    obtain rfl := hsection s (hmem hs) t (hmem ht) heq
    have hattachment := (List.mem_filter.mp hs).right
    rw [not_attachment_of_body (List.mem_filter.mp ht).right] at hattachment
    cases hattachment
  case positions   =>
    rw [hattachments]
    refine hrecords.positions ?_
    intro i a ha
    cases ha
  case plain       => rw [hplain, hrecords.plain]; rfl
  case html        => rw [hhtml, hrecords.html]; rfl
  case deep        => exact fun p hp => Nat.le_of_lt_succ (hdeep p hp)
  case few         =>
    have hfew := hrecords.few
    have hbounded := hrecords.bounded (Nat.zero_le _)
    exact length_pathsOf_add.trans ((Nat.le_add_left _ _).trans (hfew.trans hbounded))

theorem denoted_stop {s : Stop (List Value)} (hs : s ∈ stopsOf root) :
    denoted root (sectionName (Sections.bodyNumbers content root ++ s.numbers)) = some s.path ↔
    ¬Unnumbered content root s.path := by
  rw [denoted, sectionNumbers_sectionName, Option.bind_some]
  exact Sections.resolve_numbers hs

theorem forall_mem_pathsOf {p : List Value → Bool} {P : Path → Prop} :
    (∀ path ∈ pathsOf (stopsOf root) p, P path) ↔ ∀ s ∈ (stopsOf root).filter (p ·.part), P s.path := by
  rw [pathsOf, List.forall_mem_map]

-- The sections name the parts, unless one of the attachments has no number.
theorem addressed_iff (h : catalogFromBodystructure root = .ok catalog) :
    Addressed root catalog (pathsOf (stopsOf root) isAttachment) (pathsOf (stopsOf root) isBodyPart) ↔
    ∀ p ∈ pathsOf (stopsOf root) isAttachment, ¬Unnumbered content root p := by
  obtain ⟨v, ⟨hrecords, hdeep⟩, hplain, hhtml, hattachments⟩ := catalog_visits h
  obtain ⟨made, hmade, hattaches⟩ := hrecords.attachments
  rw [Visit.start, List.nil_append, ← hattachments] at hmade
  subst hmade
  have hattached := forall₂_iff (S := fun s a => denoted root a.sectionName = some s.path) hattaches
    fun s hs a ha => ha.sectionName ▸ denoted_stop (List.mem_of_mem_filter hs)
  have hbodied := forall₂_iff (S := fun s b => denoted root b.sectionName = some s.path) hrecords.bodies
    fun s hs b hb => hb.sectionName ▸ denoted_stop (List.mem_of_mem_filter hs)
  rw [forall_mem_pathsOf]
  constructor
  case mp  =>
    rintro ⟨hattachments, -⟩
    rw [pathsOf, List.forall₂_map_left_iff] at hattachments
    exact hattached.mp hattachments
  case mpr =>
    intro hnumbered
    constructor
    case attachments =>
      rw [pathsOf, List.forall₂_map_left_iff]
      exact hattached.mpr hnumbered
    case bodies      =>
      rw [pathsOf, List.forall₂_map_left_iff]
      refine hbodied.mpr fun s hs hunnumbered => ?_
      -- a part without a number has parts, and a body part has none
      obtain ⟨value, hvalue, hmultipart⟩ := hunnumbered.at?
      obtain ⟨hs, hbody⟩ := List.mem_filter.mp hs
      obtain ⟨hat, -, -⟩ := Sections.reached_of_mem hs
      obtain rfl := Option.some.inj (hvalue.symm.trans hat)
      rw [isMultipart_content] at hmultipart
      rw [isBodyPart] at hbody
      cases hhead : head s.part
      case error => rw [hhead] at hbody; cases hbody
      case ok    => simp [hhead, hmultipart] at hbody

-- A body structure whose attachments all have a number: no multipart that is an attachment is the body of an
-- embedded message.
def Numbered (root : List Value) : Prop :=
  ∀ p value, Reached content isRecorded root p → at? content root p = some value → isAttachment value →
    ¬Unnumbered content root p

theorem Catalogued.eq (h : Catalogued root catalog attached bodied)
    (hok : catalogFromBodystructure root = .ok catalog) :
    attached = pathsOf (stopsOf root) isAttachment ∧ bodied = pathsOf (stopsOf root) isBodyPart := by
  have h' := catalogued hok
  exact ⟨Sections.eq_of_before h.ordered.left h'.ordered.left fun p => (h.attachedAt p).trans (h'.attachedAt p).symm,
    Sections.eq_of_before h.ordered.right h'.ordered.right fun p => (h.bodiedAt p).trans (h'.bodiedAt p).symm⟩

theorem numbered_iff (h : catalogFromBodystructure root = .ok catalog) :
    Numbered root ↔ ∀ p ∈ pathsOf (stopsOf root) isAttachment, ¬Unnumbered content root p := by
  simp only [(catalogued h).attachedAt, Numbered]
  constructor
  case mp  =>
    rintro hnumbered p ⟨hreached, value, hvalue, hpart⟩
    exact hnumbered p value hreached hvalue hpart
  case mpr => exact fun hnumbered p value hreached hvalue hpart => hnumbered p ⟨hreached, value, hvalue, hpart⟩

theorem addressed_iff_numbered (h : catalogFromBodystructure root = .ok catalog) :
    (∃ attached bodied, Catalogued root catalog attached bodied ∧ Addressed root catalog attached bodied) ↔
    Numbered root := by
  rw [numbered_iff h, ← addressed_iff h]
  constructor
  case mp  =>
    rintro ⟨attached, bodied, hcatalogued, haddressed⟩
    obtain ⟨rfl, rfl⟩ := hcatalogued.eq h
    exact haddressed
  case mpr => exact fun haddressed => ⟨_, _, catalogued h, haddressed⟩

end Catalogs

section Sample

theorem exists_catalog [Library] {root : List Value} (h : (catalogFromBodystructure root).toOption.isSome) :
    ∃ catalog, catalogFromBodystructure root = .ok catalog := by
  cases hcatalog : catalogFromBodystructure root
  case error      => rw [hcatalog] at h; cases h
  case ok catalog => exact ⟨catalog, rfl⟩

-- A library that knows ASCII only.
@[reducible]
def asciiLibrary : Library where
  casefold text    := text.map fun c => if 0x41 ≤ c.val ∧ c.val ≤ 0x5a then Octets.codePoint (c.val + 0x20) else c
  makeHeader       := some
  guessExtension _ := none
  decode _ bytes   := .ok (Octets.decodeReplace bytes)

def textPart : List Value :=
  [.quoted ("TEXT" : String), .quoted ("PLAIN" : String), .nil, .nil, .nil, .quoted ("7BIT" : String),
    .atom ("10" : String), .atom ("1" : String)]

def attachedMultipart : List Value :=
  [.list textPart, .quoted ("MIXED" : String), .nil, .list [.quoted ("ATTACHMENT" : String), .nil]]

-- A text, and a multipart that is an attachment
def letter : List Value :=
  [.list textPart, .list attachedMultipart, .quoted ("MIXED" : String)]

-- A message, which has no other body than the multipart
def forwarded : List Value :=
  [.quoted ("MESSAGE" : String), .quoted ("RFC822" : String), .nil, .nil, .nil, .quoted ("7BIT" : String),
    .atom ("100" : String), .list (List.replicate 10 .nil), .list attachedMultipart, .atom ("4" : String)]

theorem letter_accepted : letI := asciiLibrary
    (catalogFromBodystructure letter).toOption.isSome ∧ pathsOf (stopsOf letter) isAttachment = [[1]] := by
  decide +kernel

theorem forwarded_accepted : letI := asciiLibrary
    (catalogFromBodystructure forwarded).toOption.isSome ∧ pathsOf (stopsOf forwarded) isAttachment = [[0]] := by
  decide +kernel

end Sample

section Theorem

-- The catalog of a body structure has its attachments and its body parts in the order in which they stand; the sections
-- name them exactly if none of the attachments is a multipart that is the body of an embedded message.
theorem sections_exact [Library] {root : List Value} {catalog : Catalog}
    (h : catalogFromBodystructure root = .ok catalog) :
    (∃ attached bodied, Catalogued root catalog attached bodied) ∧
    ((∃ attached bodied, Catalogued root catalog attached bodied ∧ Addressed root catalog attached bodied) ↔
      Numbered root) :=
  ⟨⟨_, _, catalogued h⟩, addressed_iff_numbered h⟩

theorem sections_exact_letter : letI := asciiLibrary
    ∃ catalog, catalogFromBodystructure letter = .ok catalog ∧
      ∃ attached bodied, Catalogued letter catalog attached bodied ∧ Addressed letter catalog attached bodied := by
  let _ := asciiLibrary
  obtain ⟨haccepted, hattached⟩ := letter_accepted
  obtain ⟨catalog, h⟩ := exists_catalog haccepted
  refine ⟨catalog, h, (sections_exact h).right.mpr ((numbered_iff h).mpr ?_)⟩
  rw [hattached, List.forall_mem_singleton]
  rintro ⟨q, -, -, hq, -⟩
  have hlast := congrArg List.getLast? hq
  simp at hlast

-- The multipart has the section of the message that it is the body of.
theorem forwarded_misses : letI := asciiLibrary
    ∃ catalog, catalogFromBodystructure forwarded = .ok catalog ∧
      ¬∃ attached bodied, Catalogued forwarded catalog attached bodied ∧
        Addressed forwarded catalog attached bodied := by
  let _ := asciiLibrary
  obtain ⟨haccepted, hattached⟩ := forwarded_accepted
  obtain ⟨catalog, h⟩ := exists_catalog haccepted
  refine ⟨catalog, h, fun haddressed => ?_⟩
  have hnumbered := (numbered_iff h).mp ((addressed_iff_numbered h).mp haddressed) [0]
    (hattached ▸ List.mem_singleton_self _)
  have hcontent : content forwarded = .message attachedMultipart := by
    rw [content, if_neg (by decide), if_pos (by decide)]
    rfl
  exact hnumbered ⟨[], forwarded, attachedMultipart, rfl, rfl, hcontent, by decide⟩

end Theorem

end Imap.Bodystructure
