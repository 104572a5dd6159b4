/-
  MiniLisp.Proofs.Session.Factorial

  Recursion through self-application. The language has no recursive definitions,
  but a function that is handed to itself can call itself: `factorialForm n` hands
  the function `(self n) => (if (<= n 0) 1 (* n (self self (- n 1))))` to a caller
  that applies it to itself and to `n`.

  Each call binds `n` anew in a frame over the environment that the function was
  made in, which is the top level for all calls: `factorialFrame n` is all that the
  body sees of a call. So one induction on the number of calls to come gives the
  value of the body and the depth that it takes (`settles_factorialBody`).
-/
import MiniLisp.Proofs.Eval.Nesting
import MiniLisp.Proofs.Parser.Grammar
import MiniLisp.Session
import Mathlib.Data.Nat.Factorial.Basic

namespace MiniLisp

/-! ## The program -/

/-- `(f a ...)`. -/
def callForm (f : Text) (args : List Datum) : Datum := .list (.sym ⟨f⟩ :: args)

/-- `((x ...) => body)`. -/
def functionForm (params : List Text) (body : Datum) : Datum :=
  .list [.list (params.map fun x => .sym ⟨x⟩), .sym ⟨"=>"⟩, body]

/-- The factorial of `n` as a program, in surface data. -/
def factorialForm (n : Int) : Datum :=
  .list [functionForm ["fact"] (callForm "fact" [.sym ⟨"fact"⟩, .int n]),
    functionForm ["self", "n"]
      (callForm "if" [callForm "<=" [.sym ⟨"n"⟩, .int 0], .int 1,
        callForm "*" [.sym ⟨"n"⟩,
          callForm "self" [.sym ⟨"self"⟩, callForm "-" [.sym ⟨"n"⟩, .int 1]]]])]

/-- `(<= n 0)`. -/
def factorialTest : Expr := .apply (.ident ⟨"<="⟩) [.ident ⟨"n"⟩, .num 0]

/-- `(self self (- n 1))`. -/
def factorialRest : Expr :=
  .apply (.ident ⟨"self"⟩) [.ident ⟨"self"⟩, .apply (.ident ⟨"-"⟩) [.ident ⟨"n"⟩, .num 1]]

/-- The body of the function that is handed to itself. -/
def factorialBody : Expr :=
  .cond factorialTest (.num 1) (.apply (.ident ⟨"*"⟩) [.ident ⟨"n"⟩, factorialRest])

/-- The factorial of `n` as a program. -/
def factorialCall (n : Int) : Expr :=
  .apply (.lambda [⟨"fact"⟩] (.apply (.ident ⟨"fact"⟩) [.ident ⟨"fact"⟩, .num n]))
    [.lambda [⟨"self"⟩, ⟨"n"⟩] factorialBody]

theorem standsFor_factorialForm (n : Int) : StandsFor (factorialForm n) (factorialCall n) := by
  have hparse : Expr.ofDatum 20 (factorialForm n) = .ok (factorialCall n) := rfl
  exact standsFor_of_ofDatum hparse

/-! ## The calls -/

/-- The function that is handed to itself. -/
def factorialClosure : Value := .closure [⟨"self"⟩, ⟨"n"⟩] factorialBody topEnv

/-- What the body of the function sees in a call. -/
def factorialFrame (n : Int) : Env :=
  Env.bind [⟨"self"⟩, ⟨"n"⟩] [factorialClosure, .num n] topEnv

section

variable (n : Int)

theorem settles_self : Settles (eval · (.ident ⟨"self"⟩) (factorialFrame n)) 1 factorialClosure :=
  settles_ident rfl

theorem settles_argument : Settles (eval · (.ident ⟨"n"⟩) (factorialFrame n)) 1 (.num n) :=
  settles_ident rfl

theorem settles_factorialTest :
    Settles (eval · factorialTest (factorialFrame n)) 3 (.bool (n ≤ 0)) :=
  settles_operation .atMost rfl (settles_argument n) (settles_num 0 _) fun _ => rfl

/-- The function applies itself to itself and to a smaller number, in a frame of its own. -/
theorem settles_factorialRest {need : Nat} {v : Value} (hneed : 4 ≤ need)
    (h : Settles (eval · factorialBody (factorialFrame (n - 1))) need v) :
    Settles (eval · factorialRest (factorialFrame n)) (need + 2) v := by
  have hless : Settles (eval · (.apply (.ident ⟨"-"⟩) [.ident ⟨"n"⟩, .num 1]) (factorialFrame n)) 3
      (.num (n - 1)) :=
    settles_operation .sub rfl (settles_argument n) (settles_num 1 _) fun _ => rfl
  have hcall : Settles (apply · factorialClosure [factorialClosure, .num (n - 1)]) (need + 1) v :=
    settles_apply_closure rfl h
  have hself := settles_self n
  exact (settles_apply hself (.cons hself (.cons hless .nil)) hcall).of_eq (by omega)

end

/-- A call with so many others to come takes five activations for each of them. -/
theorem settles_factorialBody {calls : Nat} {n : Int} (hcalls : n.toNat = calls) :
    Settles (eval · factorialBody (factorialFrame n)) (5 * calls + 4) (.num calls.factorial) := by
  have htest := settles_factorialTest n
  induction calls generalizing n with
  | zero =>
    have hstop : decide (n ≤ 0) = true := decide_eq_true (by omega)
    rw [hstop] at htest
    exact settles_cond htest (settles_num 1 _)
  | succ calls ih =>
    have hgo : decide (n ≤ 0) = false := decide_eq_false (by omega)
    rw [hgo] at htest
    have hless : (n - 1).toNat = calls := by omega
    have hrest : Settles (eval · factorialRest (factorialFrame n)) (5 * calls + 6)
        (.num calls.factorial) :=
      settles_factorialRest n (by omega) (ih hless (settles_factorialTest (n - 1)))
    have hproduct : Settles
        (eval · (.apply (.ident ⟨"*"⟩) [.ident ⟨"n"⟩, factorialRest]) (factorialFrame n))
        (max 1 (5 * calls + 6) + 2) (.num (n * calls.factorial)) :=
      settles_operation .mul rfl (settles_argument n) hrest fun _ => rfl
    have hvalue : n * calls.factorial = ((calls + 1).factorial : Int) := by
      have hn : n = ((calls + 1 : Nat) : Int) := by omega
      rw [Nat.factorial_succ, Int.natCast_mul, hn]
    rw [hvalue] at hproduct
    exact (settles_cond htest hproduct).of_eq (by omega)

theorem settles_factorialCall (n : Int) :
    Settles (eval · (factorialCall n) topEnv) (5 * n.toNat + 8) (.num n.toNat.factorial) := by
  -- The caller has a frame of its own, but the function that it applies was made outside of it.
  have hfact : Settles (eval · (.ident ⟨"fact"⟩) (Env.bind [⟨"fact"⟩] [factorialClosure] topEnv)) 1
      factorialClosure :=
    settles_ident rfl
  have hcall : Settles (apply · factorialClosure [factorialClosure, .num n]) (5 * n.toNat + 5)
      (.num n.toNat.factorial) :=
    settles_apply_closure rfl (settles_factorialBody rfl)
  have hcaller := settles_apply hfact (.cons hfact (.cons (settles_num n _) .nil)) hcall
  have hlambda := settles_lambda [⟨"self"⟩, ⟨"n"⟩] factorialBody topEnv
  exact (settles_apply (settles_lambda _ _ topEnv) (.cons hlambda .nil)
    (settles_apply_closure rfl hcaller)).of_eq (by omega)

/-- **Recursion through self-application computes what it says.** The surface form stands for the
    program, and the program for `n` has the factorial of `n` for its value, or one if `n` is
    negative, and prints nothing. It takes eight nested activations and five more for each number
    from one to `n`: that much is enough, and whatever is less is not. -/
theorem self_application_computes_factorial (n : Int) (depth : Nat) :
    Expr.ofDatum depth (factorialForm n) =
        (if 17 ≤ depth then .ok (factorialCall n) else .error .tooDeep) ∧
      (eval depth (factorialCall n) topEnv).outcome =
        (if 5 * n.toNat + 8 ≤ depth then .ok (.num (if 0 ≤ n then (n.toNat.factorial : Int) else 1))
          else .error .tooDeep) ∧
      (eval depth (factorialCall n) topEnv).lines = [] := by
  obtain ⟨hends, hlines⟩ := settles_factorialCall n depth
  have hvalue : (n.toNat.factorial : Int) = if 0 ≤ n then (n.toNat.factorial : Int) else 1 := by
    by_cases hn : 0 ≤ n
    · rw [if_pos hn]
    · have hzero : n.toNat = 0 := by omega
      rw [if_neg hn, hzero, Nat.factorial_zero]
      rfl
  rw [hvalue] at hends
  exact ⟨ofDatum_of_standsFor (standsFor_factorialForm n) depth, hends, hlines⟩

/-- The program for ten, from its text on. -/
example :
    letI := Host.bare
    (runText 58 "(((fact) => (fact fact 10))
      ((self n) => (if (<= n 0) 1 (* n (self self (- n 1))))))").outcome = .ok ["3628800"] := by
  decide +kernel

end MiniLisp
