/-!
# Return codes

Almost every function of the runtime returns an `int` that is zero for success and a negated
`errno` otherwise. `Ret` is that `int` as an inductive type, so that a branch on `ret != 0` is a
match. Codes that come from a driver, about which the runtime knows nothing but that they are not
zero, are `driver` codes.
-/

namespace Rtbus

/-- The `errno` values the runtime returns or compares with, under their C names. -/
inductive Errno
  | EINVAL
  | ENOENT
  | ENODEV
  | ENOMEM
  | EMSGSIZE
  | ENOTSUP
  | EALREADY
  | EBUSY
  | EFBIG
  | EIO
  | ENODATA
  | EBADMSG
  | ETIMEDOUT
  | ECANCELED
  | EINTR
  | ENOSYS
  | ENOMSG
  | EPROTONOSUPPORT
  | driver (code : Nat)
  deriving DecidableEq, Repr

/-- An `int` result: zero, or a negated `errno`. -/
inductive Ret
  | ok
  | err (e : Errno)
  deriving DecidableEq, Repr

end Rtbus
