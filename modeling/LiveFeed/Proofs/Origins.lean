import LiveFeed.Proofs.NumericHosts
import LiveFeed.Url.Origin

/-!
# Origins and their spellings

Credentials are filed under the text of an origin, so different origins must have different texts.
They have, because a host that was read holds no sign that separates it from the scheme or the port,
unless it stands in brackets.

* `Host.Proper`, `Host.proper_of_readSpecial`: the hosts that are read under a special scheme;
* `Host.write_injective`, `Host.write_append`: their spellings;
* `Origin.write_injective`: the spellings of origins.
-/

namespace LiveFeed.Url

/-- Up to a separator that they do not hold, two texts agree if they do with what follows it. -/
theorem append_inj_of_not_mem {sep : Char} {x y s t : List Char} (hx : sep ∉ x) (hy : sep ∉ y)
    (hs : ∀ c ∈ s.head?, c = sep) (ht : ∀ c ∈ t.head?, c = sep) (h : x ++ s = y ++ t) :
    x = y ∧ s = t := by
  induction x generalizing y with
  | nil =>
      cases y with
      | nil => exact ⟨rfl, h⟩
      | cons c y =>
          rw [List.nil_append] at h
          have hc : c = sep := hs c (by simp [h])
          exact absurd (hc ▸ List.mem_cons_self) hy
  | cons c x ih =>
      cases y with
      | nil =>
          rw [List.nil_append] at h
          have hc : c = sep := ht c (by simp [← h])
          exact absurd (hc ▸ List.mem_cons_self) hx
      | cons d y =>
          rw [List.cons_append, List.cons_append, List.cons.injEq] at h
          have hrest := ih (fun hmem => hx (List.mem_cons_of_mem c hmem))
            (fun hmem => hy (List.mem_cons_of_mem d hmem)) h.2
          exact ⟨by rw [h.1, hrest.1], hrest.2⟩

namespace Host

/-! ## Hosts -/

/-- A host as it is read under a special scheme. -/
def Proper : Host → Prop
  | domain name =>
    (∀ c ∈ name.toList, Domain.isForbidden c = false) ∧ Ipv4.endsInNumber name.toList = false
  | ipv4 a => a < 2 ^ 32
  | ipv6 gs => gs.length = 8 ∧ Ipv6.InRange gs

theorem not_isForbidden_of_toAscii? {cs name : List Char} (h : Domain.toAscii? cs = some name) :
    ∀ c ∈ name, Domain.isForbidden c = false := by
  rw [Domain.toAscii?] at h
  split at h
  · cases h
  · obtain ⟨hforbidden, hname⟩ := Option.ite_none_left_eq_some.1 h
    cases hname
    simpa using hforbidden

theorem proper_of_readBracketed {cs : List Char} {host : Host} (h : readBracketed cs = .ok host) :
    host.Proper := by
  rw [readBracketed] at h
  split at h
  · split at h
    · next gs hgs =>
        cases h
        exact Ipv6.inRange_of_read? hgs
    · cases h
  · cases h

/-- What is read under a special scheme is proper. -/
theorem proper_of_readSpecial {cs : List Char} {host : Host} (h : readSpecial cs = .ok host) :
    host.Proper := by
  rw [readSpecial] at h
  split at h
  · exact proper_of_readBracketed h
  split at h
  · cases h
  split at h
  · cases h
  · cases h
  · next name _ hascii =>
      -- A name that ends in a number has to be an address.
      split at h
      · obtain ⟨a, rfl, ha⟩ := Ipv4.read_eq_ok h
        exact ha
      · next hnumber =>
          cases h
          have hname : (String.ofList name).toList = name := String.toList_ofList
          refine ⟨?_, ?_⟩
          · rw [hname]
            exact not_isForbidden_of_toAscii? hascii
          · rw [hname]
            exact Bool.eq_false_iff.2 hnumber

/-- A spelling either holds no separator, or it stands in brackets. -/
theorem write_cases {host : Host} (h : host.Proper) :
    (':' ∉ host.write.toList ∧ '[' ∉ host.write.toList) ∨
      ∃ body, host.write.toList = '[' :: (body ++ [']']) ∧ ']' ∉ body := by
  cases host with
  | domain name =>
      refine .inl ⟨fun hmem => ?_, fun hmem => ?_⟩
      · cases h.1 _ hmem
      · cases h.1 _ hmem
  | ipv4 a => exact .inl ⟨Ipv4.not_mem_write (by decide) rfl a, Ipv4.not_mem_write (by decide) rfl a⟩
  | ipv6 gs =>
      refine .inr ⟨(Ipv6.write gs).toList, by simp [write], ?_⟩
      exact Ipv6.not_mem_write (by decide) (by decide) gs

theorem mem_bracket (gs : List Nat) : '[' ∈ (ipv6 gs).write.toList := by
  simp [write]

theorem ne_bracket {front s : List Char} (hfront : '[' ∉ front) (hs : ∀ c ∈ s.head?, c = ':')
    (t : List Char) : front ++ s ≠ '[' :: t := by
  intro heq
  cases front with
  | nil =>
      obtain rfl : s = '[' :: t := heq
      cases hs '[' rfl
  | cons c front => exact hfront ((List.cons.inj heq).1 ▸ List.mem_cons_self)

/-- Different hosts are spelled differently. -/
theorem write_injective {host host' : Host} (h : host.Proper) (h' : host'.Proper)
    (heq : host.write = host'.write) : host = host' := by
  have hbracket : ∀ (host : Host) gs, host.write = (ipv6 gs).write → '[' ∈ host.write.toList :=
    fun host gs hwrite => hwrite ▸ mem_bracket gs
  cases host with
  | domain name =>
      cases host' with
      | domain name' => exact congrArg domain heq
      | ipv4 a =>
          -- A name that ends in a number is read as an address and not as a name.
          have hnumber := h.2
          rw [show name = Ipv4.write a from heq, Ipv4.endsInNumber_write] at hnumber
          cases hnumber
      | ipv6 gs => cases h.1 '[' (hbracket _ gs heq)
  | ipv4 a =>
      cases host' with
      | domain name =>
          have hnumber := h'.2
          rw [show name = Ipv4.write a from heq.symm, Ipv4.endsInNumber_write] at hnumber
          cases hnumber
      | ipv4 b => exact congrArg ipv4 (Ipv4.write_injective h h' heq)
      | ipv6 gs => exact absurd (hbracket _ gs heq) (Ipv4.not_mem_write (by decide) rfl a)
  | ipv6 gs =>
      cases host' with
      | domain name => cases h'.1 '[' (hbracket _ gs heq.symm)
      | ipv4 a => exact absurd (hbracket _ gs heq.symm) (Ipv4.not_mem_write (by decide) rfl a)
      | ipv6 hs =>
          have hinner : Ipv6.write gs = Ipv6.write hs := by
            simpa [write, ← String.toList_inj] using heq
          exact congrArg ipv6 (Ipv6.write_injective h h' hinner)

/-- A host and what a colon sets off from it can be told from their text. -/
theorem write_append {host host' : Host} (h : host.Proper) (h' : host'.Proper) {s t : List Char}
    (hs : ∀ c ∈ s.head?, c = ':') (ht : ∀ c ∈ t.head?, c = ':')
    (heq : host.write.toList ++ s = host'.write.toList ++ t) : host = host' ∧ s = t := by
  have hsplit : host.write.toList = host'.write.toList ∧ s = t := by
    rcases write_cases h with ⟨hcolon, hbracket⟩ | ⟨body, hbody, hclosed⟩
    · rcases write_cases h' with ⟨hcolon', -⟩ | ⟨body', hbody', -⟩
      · exact append_inj_of_not_mem hcolon hcolon' hs ht heq
      · -- A bracket is neither in a plain spelling nor where the colon would be.
        rw [hbody'] at heq
        exact absurd heq (ne_bracket hbracket hs _)
    · rcases write_cases h' with ⟨-, hbracket'⟩ | ⟨body', hbody', hclosed'⟩
      · rw [hbody] at heq
        exact absurd heq.symm (ne_bracket hbracket' ht _)
      · rw [hbody, hbody'] at heq ⊢
        -- Both stand in brackets, which close where the first closing bracket is.
        simp only [List.cons_append, List.append_assoc, List.cons.injEq, true_and] at heq
        obtain ⟨rfl, hrest⟩ := append_inj_of_not_mem hclosed hclosed' (by simp) (by simp) heq
        exact ⟨rfl, by simpa using hrest⟩
  exact ⟨write_injective h h' (String.toList_inj.1 hsplit.1), hsplit.2⟩

end Host

namespace Origin

/-! ## Origins -/

/-- An origin is opaque, or it has a scheme of the network and a proper host. -/
def Proper : Origin → Prop
  | hidden => True
  | tuple scheme host _ => (impliedPort scheme).isSome = true ∧ host.Proper

theorem not_mem_scheme {scheme : String} (h : (impliedPort scheme).isSome = true) :
    ':' ∉ scheme.toList := by
  unfold impliedPort at h
  split at h
  · next hplain => rcases hplain with rfl | rfl <;> decide
  split at h
  · next hsecure => rcases hsecure with rfl | rfl <;> decide
  split at h
  · next hftp =>
      subst hftp
      decide
  · cases h

/-- The port as it stands behind the host. -/
def portChars (scheme : String) (port : Nat) : List Char :=
  if impliedPort scheme = some port then [] else ':' :: (toString port).toList

theorem head?_portChars (scheme : String) (port : Nat) :
    ∀ c ∈ (portChars scheme port).head?, c = ':' := by
  rw [portChars]
  split
  · simp
  · simp

theorem portChars_injective {scheme : String} {port port' : Nat}
    (h : portChars scheme port = portChars scheme port') : port = port' := by
  rw [portChars, portChars] at h
  split at h
  · next hport =>
      split at h
      · next hport' => exact Option.some.inj (hport.symm.trans hport')
      · cases h
  · split at h
    · cases h
    · exact Ipv4.decimalChars_injective (List.cons.inj h).2

theorem toList_write (scheme : String) (host : Host) (port : Nat) :
    (tuple scheme host port).write.toList =
      scheme.toList ++ ':' :: '/' :: '/' :: (host.write.toList ++ portChars scheme port) := by
  simp only [write, portChars]
  split
  · simp
  · simp

/-- Different origins are spelled differently; nothing but an opaque one is written as those are. -/
theorem write_injective {o o' : Origin} (h : o.Proper) (h' : o'.Proper)
    (heq : o.write = o'.write) : o = o' := by
  have hhidden : ∀ scheme host port, hidden.write ≠ (tuple scheme host port).write := by
    intro scheme host port hwrite
    have hcolon : ':' ∈ hidden.write.toList := by
      rw [hwrite, toList_write]
      simp
    exact absurd hcolon (by decide)
  cases o with
  | hidden =>
      -- The text of an opaque origin has no colon.
      cases o' with
      | hidden => rfl
      | tuple scheme host port => exact absurd heq (hhidden scheme host port)
  | tuple scheme host port =>
      cases o' with
      | hidden => exact absurd heq.symm (hhidden scheme host port)
      | tuple scheme' host' port' =>
          -- The scheme ends at the first colon, the host where the port starts.
          have htext := congrArg String.toList heq
          rw [toList_write, toList_write] at htext
          obtain ⟨hscheme, hrest⟩ :=
            append_inj_of_not_mem (not_mem_scheme h.1) (not_mem_scheme h'.1) (by simp) (by simp) htext
          obtain rfl := String.toList_inj.1 hscheme
          simp only [List.cons.injEq, true_and] at hrest
          obtain ⟨rfl, hport⟩ := Host.write_append h.2 h'.2 (head?_portChars scheme port)
            (head?_portChars scheme port') hrest
          rw [portChars_injective hport]

end Origin

end LiveFeed.Url
