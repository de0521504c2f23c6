import Bracketing.Evaluation.Memoized
import Bracketing.Proofs.StateLogic

namespace Bracketing.Evaluation.Memo

theorem run_remember_hit {cache : Cache} {span : Span} {values : List Float}
    (work : Memo (List Float)) (h : cache.find? span = some values) :
    (remember span work).run.run cache = (.ok values, cache) := by
  rw [remember, run_bind_ok _ (run_get cache), h]
  rfl

theorem run_remember_ok {before after : Cache} {span : Span} {values : List Float}
    {work : Memo (List Float)} (hspan : before.find? span = none)
    (h : work.run.run before = (.ok values, after)) :
    (remember span work).run.run before = (.ok values, after.insert span values) := by
  rw [remember, run_bind_ok _ (run_get before), hspan]
  exact run_bind_ok _ h

theorem run_remember_error {before after : Cache} {span : Span} {fault : Fault}
    {work : Memo (List Float)} (hspan : before.find? span = none)
    (h : work.run.run before = (.error fault, after)) :
    (remember span work).run.run before = (.error fault, after) := by
  rw [remember, run_bind_ok _ (run_get before), hspan]
  exact run_bind_error _ h

end Bracketing.Evaluation.Memo
