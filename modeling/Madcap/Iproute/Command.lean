import Madcap.Iproute.Netlink
import Madcap.Iproute.Text

/-!
# Command lines

A command knows some words. Each sets something in the parameters or reads the word that
follows it, and a word that the command does not know is skipped. What is printed can be given
back to a command when its words are told apart by blanks.
-/

namespace Madcap

/-- `NLM_F_REQUEST | NLM_F_ACK`. -/
def nlmTalk : U16 := 0x005

/-- `NLM_F_ROOT | NLM_F_MATCH | NLM_F_REQUEST`. -/
def nlmDump : U16 := 0x301

def NLM_F_DUMP : U16 := 0x300

/-- How a command ends without a request. -/
inductive Exit where
  | usage
  | incompleteCommand
  | invarg (msg : String) (arg : CString)
  | message (text : String)
  | unknown (word : CString)
  deriving DecidableEq, Repr

/-- The names of interfaces, as `if_nametoindex` and `if_indextoname` know them. -/
structure Interfaces where
  nametoindex : CString → U32
  indextoname : U32 → Option CString

/-- What the tool finds when it is started. -/
structure ToolEnv where
  ifs : Interfaces
  erange : Bool

/-- What a command does at a word: it sets something, or reads the next word. -/
inductive Keyword (π : Type) where
  | flag (set : π → π)
  | option (read : CString → π → Except Exit π)

/-- A value that was read, or `invarg`. -/
def orInvarg {α π : Type} (msg : String) (arg : CString) (value : Option α) (set : α → π) :
    Except Exit π :=
  match value with
  | none => .error (.invarg msg arg)
  | some a => .ok (set a)

/-- The word after `dev`. -/
def readDev {π : Type} (tool : ToolEnv) (arg : CString) (set : U32 → π) : Except Exit π :=
  if tool.ifs.nametoindex arg = 0 then .error (.invarg "invalid device" arg)
  else .ok (set (tool.ifs.nametoindex arg))

/-- The loop of `parse_args`. A word that is not known is skipped. -/
def parseWords {π : Type} (known : CString → Option (Keyword π)) :
    List CString → π → Except Exit π
  | [], p => .ok p
  | word :: argv, p =>
    match known word with
    | none => parseWords known argv p
    | some (.flag set) => parseWords known argv (set p)
    | some (.option read) =>
      match argv with
      | [] => .error .incompleteCommand
      | arg :: argv => do
        let p ← read arg p
        parseWords known argv p

/-- `matches`: the word is the start of the command, and may be empty. -/
def wordMatches (word : CString) (command : String) : Bool := word.isPrefixOf command.toList

/-- A command ends as is said: with an exit, or with a request that asks for something. -/
def Follows {α : Type} (asks : GenlRequest → α → Prop) (res : Res (Except Exit GenlRequest)) :
    Except Exit α → Prop
  | .error e => res = .ok (.error e)
  | .ok a => ∃ n, res = .ok (.ok n) ∧ asks n a

section

variable {π : Type} {known : CString → Option (Keyword π)} {word arg : CString}
  {argv : List CString} {p p' : π}

theorem parseWords_option {read : CString → π → Except Exit π}
    (hword : known word = some (.option read)) (harg : read arg p = .ok p') :
    parseWords known (word :: arg :: argv) p = parseWords known argv p' := by
  rw [parseWords, hword]
  dsimp only
  rw [harg]
  rfl

theorem parseWords_flag {set : π → π} (hword : known word = some (.flag set)) :
    parseWords known (word :: argv) p = parseWords known argv (set p) := by
  rw [parseWords, hword]

theorem readDev_named {tool : ToolEnv} (hdev : tool.ifs.nametoindex arg ≠ 0) (set : U32 → π) :
    readDev tool arg set = .ok (set (tool.ifs.nametoindex arg)) :=
  if_neg hdev

end

/-- What a keyword does keeps a property of the parameters. -/
def Keyword.Keeps {π : Type} (P : π → Prop) : Keyword π → Prop
  | .option read => ∀ arg p p', P p → read arg p = .ok p' → P p'
  | .flag set => ∀ p, P p → P (set p)

section

variable {π : Type} {P : π → Prop} {known : CString → Option (Keyword π)}

theorem parseWords_keeps (hknown : ∀ word, ∀ k ∈ known word, k.Keeps P) {argv : List CString}
    {p p' : π} (hp : P p) (h : parseWords known argv p = .ok p') : P p' := by
  induction argv, p using parseWords.induct known with
  | case1 p =>
    rw [parseWords] at h
    exact Except.ok.inj h ▸ hp
  | case2 word argv p hword ih =>
    rw [parseWords, hword] at h
    exact ih hp h
  | case3 word argv p set hword ih =>
    rw [parseWords, hword] at h
    exact ih (hknown word _ hword p hp) h
  | case4 word p read hword =>
    rw [parseWords, hword] at h
    cases h
  | case5 word p read hword arg argv ih =>
    rw [parseWords, hword] at h
    obtain ⟨p₁, hread, hrest⟩ := bind_eq_ok.mp h
    exact ih p₁ (hknown word _ hword arg p p₁ hp hread) hrest

theorem keeps_ite {c : Prop} [Decidable c] {k : Keyword π} {rest : Option (Keyword π)}
    (hk : k.Keeps P) (hrest : ∀ k' ∈ rest, k'.Keeps P) :
    ∀ k' ∈ (if c then some k else rest), k'.Keeps P := by
  intro k' hk'
  split at hk'
  · exact Option.some.inj hk' ▸ hk
  · exact hrest k' hk'

theorem orInvarg_keeps {α : Type} {msg : String} {word : CString → CString}
    {value : CString → π → Option α} {set : π → α → π} (hset : ∀ p x, P p → P (set p x)) :
    (Keyword.option fun arg p => orInvarg msg (word arg) (value arg p) (set p)).Keeps P := by
  intro arg p p' hp h
  unfold orInvarg at h
  dsimp only at h
  split at h
  · cases h
  · exact Except.ok.inj h ▸ hset p _ hp

theorem readDev_keeps {tool : ToolEnv} {set : π → U32 → π} (hset : ∀ p x, P p → P (set p x)) :
    (Keyword.option fun arg p => readDev tool arg (set p)).Keeps P := by
  intro arg p p' hp h
  unfold readDev at h
  dsimp only at h
  split at h
  · cases h
  · exact Except.ok.inj h ▸ hset p _ hp

end

def lineWords (line : CString) : List CString := (line.takeWhile fun c => c ≠ '\n').splitOn ' '

def IsWord (w : CString) : Prop := ' ' ∉ w ∧ '\n' ∉ w

instance : DecidablePred IsWord := fun _ => inferInstanceAs (Decidable (_ ∧ _))

theorem isWord_decimal (n : ℕ) : IsWord (decimal n) :=
  ⟨not_mem_decimal (by decide) n, not_mem_decimal (by decide) n⟩

theorem isWord_inetNtop (addr : U32) : IsWord (inetNtop addr) :=
  ⟨not_mem_inetNtop (by decide) (by decide) addr, not_mem_inetNtop (by decide) (by decide) addr⟩

theorem isWord_lladdrText (bs : List U8) : IsWord (lladdrText bs) :=
  ⟨not_mem_lladdrText (by decide) (by decide) bs, not_mem_lladdrText (by decide) (by decide) bs⟩

theorem intercalate_cons (w : CString) (ws : List CString) :
    [' '].intercalate (w :: ws) = w ++ ws.flatMap fun w => ' ' :: w := by
  induction ws generalizing w with
  | nil => simp
  | cons w' ws ih =>
    rw [List.intercalate_cons_cons, ih, List.flatMap_cons]
    simp

theorem not_mem_intercalate {ws : List CString} (h : ∀ w ∈ ws, '\n' ∉ w) :
    '\n' ∉ [' '].intercalate ws := by
  induction ws with
  | nil => simp
  | cons w ws ih =>
    have hw := h w List.mem_cons_self
    have hws := ih fun w hw => h w (List.mem_cons_of_mem _ hw)
    cases ws with
    | nil => simpa using hw
    | cons w' ws =>
      rw [List.intercalate_cons_cons]
      simp only [List.mem_append, List.mem_singleton, not_or]
      exact ⟨⟨hw, by decide⟩, hws⟩

theorem lineWords_intercalate {ws : List CString} (h : ∀ w ∈ ws, IsWord w) (hne : ws ≠ []) :
    lineWords ([' '].intercalate ws ++ "\n".toList) = ws := by
  have hline : ([' '].intercalate ws ++ "\n".toList).takeWhile (fun c => decide (c ≠ '\n')) =
      [' '].intercalate ws := by
    rw [List.takeWhile_append_of_pos fun c hc => ?_]
    · exact List.append_nil _
    · refine decide_eq_true fun hnl => not_mem_intercalate (fun w hw => (h w hw).2) ?_
      rwa [← hnl]
  unfold lineWords
  rw [hline]
  exact List.splitOn_intercalate ' ' (fun w hw => (h w hw).1) hne

end Madcap
