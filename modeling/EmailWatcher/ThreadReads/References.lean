import EmailWatcher.Mail.Threading
import EmailWatcher.ThreadReads.Readers

-- References to threads, which last longer than the keys of the threads.
namespace ThreadReads

open Mail Transaction

section Resolution

variable {s : Store} {requested : ThreadRef} {key : String}

-- An alias leads to a thread in one step.
theorem resolveThreadRef_of_leads (hp : requested.provider = .imap) (hl : s.mail.Leads requested.threadKey key)
    (hn : s.mail.aliases.get key = none) :
    s.resolveThreadRef requested = .ok { requested with threadKey := key } := by
  rw [Store.resolveThreadRef, if_pos hp]
  obtain rfl | hget := hl
  · cases s.mail.aliases.rows.length <;> simp [Store.resolveThreadRef.go, hn, pure_eq_ok]
  · have hmem := Table.mem_of_get hget
    obtain ⟨n, hlen⟩ : ∃ n, s.mail.aliases.rows.length = n + 1 :=
      Nat.exists_eq_succ_of_ne_zero (List.ne_nil_of_mem (Table.mem_rows.mpr hmem) <| List.length_eq_zero_iff.mp ·)
    have hne : key ∉ [requested.threadKey] := by
      intro hkey
      obtain rfl := List.mem_singleton.mp hkey
      cases hn.symm.trans hget
    unfold Store.resolveThreadRef.go
    simp only [hlen, List.not_mem_nil, if_false, hget]
    unfold Store.resolveThreadRef.go
    simp only [hne, if_false, hn]
    rfl

end Resolution

section Theorem

variable [Codec]

-- A message has had the key, and has been stored since.
def Held (start : Mail.Store) (as : List Action) (messageId key : String) : Prop :=
  ∃ earlier later, as = earlier ++ later ∧
    (∃ m ∈ (machine.run start earlier).messages, m.messageId = messageId ∧ m.provider = .imap ∧
      m.threadKey = some key) ∧
    machine.Always (fun s => (s.messages.get messageId).isSome) (machine.run start earlier) later

variable {start : Mail.Store} {as : List Action} {messageId key : String}

theorem Held.leads (hd : (as.flatMap Action.drawn).Nodup) (h : Held start as messageId key)
    (hstart : Threaded [] .empty start) :
    ∃ x key', (machine.run start as).seat messageId = some x ∧ x.Carries key' ∧
      (machine.run start as).Leads key key' := by
  obtain ⟨earlier, later, rfl, ⟨m, hm, rfl, hp, hk⟩, hstored⟩ := h
  rw [List.flatMap_append] at hd
  have hearlier : Threaded (earlier.flatMap Action.drawn) (threadsOf start .empty earlier)
      (machine.run start earlier) :=
    hstart.run (List.nodup_append.mp hd).left
  rw [Machine.run_append]
  exact hearlier.leads_run hd (seat_of_mem hm) ⟨hp, hk⟩ (.inl rfl) hstored

-- Whatever has become of a thread, a reference to it is resolved in one step at most to the thread that the
-- message is in, which no alias hides. References of two messages are resolved to one thread if the headers have
-- joined the messages, and to two threads if they have not.
theorem references_last (hm : start.messages = ∅) (hl : start.locations = ∅) (ht : start.threadIds = ∅)
    (ha : start.aliases = ∅) (hd : (as.flatMap Action.drawn).Nodup) {s : Store}
    (hs : s.mail = machine.run start as) {messageId₁ messageId₂ : String} {ref₁ ref₂ : ThreadRef}
    (hp₁ : ref₁.provider = .imap) (hp₂ : ref₂.provider = .imap) (h₁ : Held start as messageId₁ ref₁.threadKey)
    (h₂ : Held start as messageId₂ ref₂.threadKey) :
    ∃ m₁ ∈ s.mail.messages, ∃ m₂ ∈ s.mail.messages, ∃ key₁ key₂, m₁.messageId = messageId₁ ∧
      m₂.messageId = messageId₂ ∧ m₁.threadKey = some key₁ ∧ m₂.threadKey = some key₂ ∧
      s.resolveThreadRef ref₁ = .ok { ref₁ with threadKey := key₁ } ∧
      s.resolveThreadRef ref₂ = .ok { ref₂ with threadKey := key₂ } ∧
      s.mail.Leads ref₁.threadKey key₁ ∧ s.mail.Leads ref₂.threadKey key₂ ∧ s.mail.aliases.get key₁ = none ∧
      (key₁ = key₂ ↔ (threadsOf start .empty as).Together (.row messageId₁) (.row messageId₂)) := by
  have hstart := threaded_empty hm hl ht ha
  have hend : Threaded (as.flatMap Action.drawn) (threadsOf start .empty as) (machine.run start as) := hstart.run hd
  obtain ⟨x₁, key₁, hx₁, hc₁, hl₁⟩ := h₁.leads hd hstart
  obtain ⟨x₂, key₂, hx₂, hc₂, hl₂⟩ := h₂.leads hd hstart
  have hfree : ∀ {id x key}, (machine.run start as).seat id = some x → x.Carries key →
      (machine.run start as).aliases.get key = none := by
    intro id x key hx hc
    refine Table.get_eq_none.mpr fun a hmem hk => (hend.retired a hmem).right.right ?_
    obtain rfl : a.oldKey = key := hk
    exact ⟨id, x, hx, hc⟩
  obtain ⟨m₁, hm₁, hid₁, rfl⟩ := exists_mem_of_seat hx₁
  obtain ⟨m₂, hm₂, hid₂, rfl⟩ := exists_mem_of_seat hx₂
  rw [← hs] at hm₁ hm₂ hl₁ hl₂
  have hn₁ : s.mail.aliases.get key₁ = none := hs ▸ hfree hx₁ hc₁
  have hn₂ : s.mail.aliases.get key₂ = none := hs ▸ hfree hx₂ hc₂
  refine ⟨m₁, hm₁, m₂, hm₂, key₁, key₂, hid₁, hid₂, hc₁.right, hc₂.right, resolveThreadRef_of_leads hp₁ hl₁ hn₁,
    resolveThreadRef_of_leads hp₂ hl₂ hn₂, hl₁, hl₂, hn₁, ?_⟩
  rw [hend.together]
  constructor
  case mp  =>
    rintro rfl
    exact ⟨key₁, label_row_eq_some.mpr ⟨_, hx₁, hc₁⟩, label_row_eq_some.mpr ⟨_, hx₂, hc₂⟩⟩
  case mpr =>
    rintro ⟨key, hlabel₁, hlabel₂⟩
    have hkey₁ := label_row_eq_some.mpr ⟨_, hx₁, hc₁⟩
    have hkey₂ := label_row_eq_some.mpr ⟨_, hx₂, hc₂⟩
    exact (Option.some.inj (hkey₁.symm.trans hlabel₁)).trans (Option.some.inj (hkey₂.symm.trans hlabel₂)).symm

end Theorem

section Sample

open Mail.Sample

namespace Sample

theorem correspondents_messages : (machine.run mailbox correspondence).messages.rows.length < 0x8000000000000000 := by
  decide +kernel

theorem correspondents_locations :
    (machine.run mailbox correspondence).locations.rows.length < 0x8000000000000000 := by
  decide +kernel

theorem correspondents_bodies :
    ∀ b ∈ (machine.run mailbox correspondence).bodies, b.sourceChars < 0x8000000000000000 := by
  have hnil : (machine.run mailbox correspondence).bodies.rows = [] := by decide +kernel
  intro b hb
  rw [← Table.mem_rows, hnil] at hb
  exact absurd hb List.not_mem_nil

-- What has become of the correspondence.
def correspondents : Store where
  mail          := machine.run mailbox correspondence
  derived       := ∅
  vendors       := ∅
  subject _     := "Subject"
  senderName _  := none
  storedChars _ := 0
  messages_lt   := correspondents_messages
  located_lt    := correspondents_locations
  source_lt     := correspondents_bodies

def reference (threadKey : String) : ThreadRef :=
  ⟨.imap, "account", some "mailbox", threadKey⟩

theorem held_second : Held mailbox correspondence "second" (reference "thread of second").threadKey :=
  ⟨correspondence.take 2, correspondence.drop 2, rfl,
    ⟨Mail.Store.capturedRow ⟨.imap, "account", "mailbox"⟩ (mailed "second" []) "thread of second",
      by decide +kernel, rfl, rfl, rfl⟩,
    by decide +kernel⟩

theorem held_answer : Held mailbox correspondence "answer" (reference "thread of first").threadKey :=
  ⟨correspondence.take 3, correspondence.drop 3, rfl,
    ⟨Mail.Store.capturedRow ⟨.imap, "account", "mailbox"⟩
        (mailed "answer" ["<first@sender>", "<second@sender>"]) "thread of first",
      by decide +kernel, rfl, rfl, rfl⟩,
    by decide +kernel⟩

end Sample

open Sample in
-- The reference to the second letter outlasts the thread of the letter.
theorem references_last_correspondence :
    ∃ key₁ key₂, correspondents.resolveThreadRef (reference "thread of second") = .ok (reference key₁) ∧
      correspondents.resolveThreadRef (reference "thread of first") = .ok (reference key₂) ∧
      (key₁ = key₂ ↔ (threadsOf mailbox .empty correspondence).Together (.row "second") (.row "answer")) := by
  have hd : (correspondence.flatMap Action.drawn).Nodup := by decide
  have hs : correspondents.mail = machine.run mailbox correspondence := rfl
  obtain ⟨_, -, _, -, key₁, key₂, -, -, -, -, hr₁, hr₂, -, -, -, hiff⟩ :=
    references_last rfl rfl rfl rfl hd hs rfl rfl held_second held_answer
  exact ⟨key₁, key₂, hr₁, hr₂, hiff⟩

end Sample

end ThreadReads
