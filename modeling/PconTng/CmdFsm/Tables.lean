import PconTng.Typedefs

/-!
# The tables of the command processor

`cmd_fsm.c` is driven by two tables with a row for every kind of token and a column for every
state: the action routine to run (`cmdAction`) and the next state if it succeeds (`cmdNewState`).
The rows 0 to 34 and 38 to 40 belong to the keywords with these numbers, the rows 35, 36 and 37 to
integers, strings and other tokens.
-/

namespace PconTng

/-- The action routines that the table names. -/
inductive Act
  | c0 | c1 | c2 | c3 | c4 | c5 | c6 | c7 | c8 | c9 | c10 | c11 | c12 | c13 | c14
  | c16 | c17 | c18 | c19 | c20 | c21 | c22 | c23 | c24 | c25 | c27 | c28 | c29 | c30
  | c31 | c32 | c33 | c34 | c37 | c38 | c39 | c40 | c41 | c42 | c43 | c44 | c45 | c46
  | c47 | c48 | c49 | c50 | c51 | c52 | c53 | c55 | c56 | c57 | c58 | c59 | c61 | c63
  | c65 | c66 | c68 | c69 | c70 | c71 | c72 | c73 | c74 | c75 | c76
  deriving DecidableEq

/-- `keyword`. The texts of the rows 35 to 37 are never compared with a token. -/
def keyword : List (List Byte) :=
  ["temp", "*", "humid", "schedule", "?", "display", "yes", "cancel", "replace", "sedit", "delete",
   "active", "on", "off", "clear", "status", "time", "sensor", "cycle", "ipc", "show", "save",
   "template", "hide", "load", "set", "q", "done", "back", "system", "channel", "ssch", "wsch",
   "slib", "tlib", "INT", "STR", "OTHER", "slist", "group", "description"].map str

/-- `cmd_new_state` -/
def cmdNewState : Vector (Vector ℕ cmdStates) cmdTokens := #v[
  -- 0 temp
  #v[0, 1, 2, 3, 4, 5, 6, 7, 8, 9, 10, 11, 12, 13, 14, 15, 16, 17, 18, 19, 20, 21, 0, 0, 26, 25, 26,
     27, 28, 29, 30, 31, 32, 33, 34],
  -- 1 *
  #v[0, 1, 2, 3, 4, 9, 6, 8, 9, 4, 10, 11, 12, 13, 14, 15, 16, 17, 18, 19, 20, 21, 0, 0, 24, 25, 26,
     27, 28, 29, 30, 31, 32, 33, 34],
  -- 2 humid
  #v[0, 1, 2, 3, 4, 0, 6, 0, 8, 9, 10, 11, 12, 13, 14, 15, 16, 17, 18, 19, 20, 21, 0, 0, 27, 25, 26,
     27, 28, 29, 30, 31, 32, 33, 34],
  -- 3 schedule
  #v[4, 1, 2, 3, 4, 0, 11, 23, 8, 9, 10, 11, 28, 13, 14, 15, 16, 17, 18, 19, 20, 21, 0, 0, 24, 25,
     26, 27, 28, 29, 30, 31, 32, 33, 34],
  -- 4 ?
  #v[0, 1, 2, 3, 4, 5, 6, 7, 8, 9, 10, 11, 12, 13, 14, 15, 16, 17, 18, 19, 20, 21, 22, 23, 24, 25,
     26, 27, 28, 29, 30, 31, 32, 33, 34],
  -- 5 display
  #v[0, 1, 2, 3, 4, 5, 6, 7, 8, 9, 10, 11, 12, 13, 14, 15, 16, 17, 18, 19, 20, 21, 22, 23, 24, 25,
     26, 27, 28, 29, 13, 31, 32, 33, 34],
  -- 6 yes
  #v[0, 1, 0, 3, 4, 0, 6, 0, 0, 0, 10, 11, 4, 13, 14, 15, 16, 17, 18, 19, 20, 21, 22, 23, 24, 25,
     26, 27, 28, 29, 30, 31, 32, 33, 34],
  -- 7 cancel
  #v[0, 0, 0, 0, 0, 0, 4, 4, 4, 4, 4, 4, 4, 0, 14, 15, 16, 17, 18, 19, 20, 21, 22, 23, 8, 25, 8, 8,
     28, 0, 0, 0, 0, 33, 34],
  -- 8 replace
  #v[0, 1, 2, 3, 4, 5, 6, 0, 8, 9, 10, 11, 12, 13, 14, 15, 16, 17, 18, 19, 20, 21, 22, 23, 24, 25,
     26, 27, 28, 29, 30, 31, 32, 33, 34],
  -- 9 sedit
  #v[29, 1, 2, 3, 4, 5, 6, 7, 8, 9, 10, 11, 12, 13, 14, 15, 16, 17, 18, 19, 20, 21, 22, 23, 24, 25,
     26, 27, 28, 30, 30, 31, 32, 33, 34],
  -- 10 delete
  #v[0, 1, 2, 3, 12, 5, 4, 7, 8, 9, 10, 11, 12, 13, 14, 15, 16, 17, 18, 19, 20, 21, 22, 23, 4, 25,
     26, 27, 28, 29, 0, 31, 32, 33, 34],
  -- 11 active
  #v[0, 1, 2, 3, 4, 5, 6, 7, 8, 9, 10, 11, 12, 13, 14, 15, 16, 17, 18, 19, 20, 21, 22, 23, 24, 25,
     26, 27, 28, 29, 30, 32, 32, 33, 34],
  -- 12 on
  #v[0, 0, 2, 3, 4, 5, 6, 7, 8, 9, 10, 11, 12, 30, 14, 15, 16, 17, 18, 19, 20, 21, 22, 23, 4, 25,
     26, 27, 28, 29, 30, 31, 32, 33, 34],
  -- 13 off
  #v[0, 0, 2, 3, 4, 5, 6, 7, 8, 9, 10, 11, 12, 30, 14, 15, 16, 17, 18, 19, 20, 21, 22, 23, 4, 25,
     26, 27, 28, 29, 30, 31, 32, 33, 34],
  -- 14 clear
  #v[0, 1, 2, 3, 4, 5, 6, 7, 8, 9, 10, 11, 12, 13, 14, 15, 16, 17, 18, 19, 20, 0, 22, 23, 24, 25,
     26, 27, 28, 29, 30, 31, 32, 33, 34],
  -- 15 status
  #v[0, 1, 2, 3, 4, 5, 6, 7, 8, 9, 10, 11, 12, 13, 14, 15, 16, 17, 18, 19, 20, 21, 22, 23, 24, 25,
     26, 27, 28, 29, 30, 31, 32, 33, 34],
  -- 16 time
  #v[0, 0, 2, 3, 4, 5, 6, 7, 8, 9, 10, 11, 12, 13, 14, 15, 16, 17, 18, 19, 20, 21, 22, 23, 24, 25,
     26, 27, 28, 29, 30, 31, 32, 33, 34],
  -- 17 sensor
  #v[0, 0, 2, 3, 4, 5, 6, 7, 8, 9, 10, 11, 12, 13, 14, 15, 16, 17, 18, 19, 20, 21, 0, 0, 24, 25, 26,
     27, 28, 29, 30, 31, 32, 33, 34],
  -- 18 cycle
  #v[0, 2, 2, 3, 4, 5, 6, 7, 8, 9, 10, 11, 12, 13, 14, 15, 16, 17, 18, 19, 20, 21, 0, 0, 24, 25, 26,
     27, 28, 29, 30, 31, 32, 33, 34],
  -- 19 ipc
  #v[0, 1, 2, 3, 4, 5, 4, 4, 8, 9, 10, 11, 4, 13, 14, 15, 16, 17, 18, 19, 20, 21, 0, 0, 24, 25, 26,
     27, 28, 29, 30, 31, 32, 33, 34],
  -- 20 show
  #v[0, 0, 2, 3, 4, 5, 6, 7, 8, 9, 10, 11, 12, 13, 14, 15, 16, 17, 18, 19, 20, 21, 0, 0, 24, 25, 26,
     27, 28, 29, 31, 33, 32, 33, 34],
  -- 21 save
  #v[0, 1, 2, 3, 6, 5, 4, 5, 8, 9, 10, 11, 12, 13, 14, 15, 16, 17, 18, 19, 20, 21, 22, 23, 24, 25,
     26, 27, 28, 29, 29, 31, 32, 33, 34],
  -- 22 template
  #v[0, 1, 2, 3, 4, 5, 10, 22, 8, 9, 10, 11, 25, 13, 14, 15, 16, 17, 18, 19, 20, 21, 0, 0, 24, 25,
     26, 27, 28, 29, 30, 31, 32, 33, 34],
  -- 23 hide
  #v[0, 0, 2, 3, 4, 5, 6, 7, 8, 9, 10, 11, 12, 13, 14, 15, 16, 17, 18, 19, 20, 21, 0, 0, 24, 25, 26,
     27, 28, 29, 32, 34, 32, 33, 34],
  -- 24 load
  #v[0, 1, 2, 3, 7, 5, 6, 7, 8, 9, 10, 11, 12, 13, 14, 15, 16, 17, 18, 19, 20, 21, 0, 0, 24, 25, 26,
     27, 28, 29, 30, 31, 32, 33, 34],
  -- 25 set
  #v[0, 1, 2, 3, 5, 5, 6, 7, 8, 9, 10, 11, 12, 13, 14, 15, 16, 17, 18, 19, 20, 21, 22, 23, 24, 25,
     26, 27, 28, 29, 30, 31, 32, 33, 34],
  -- 26 q
  #v[0, 1, 0, 0, 0, 0, 0, 0, 8, 9, 10, 11, 12, 13, 14, 15, 16, 17, 18, 19, 20, 21, 22, 23, 24, 25,
     26, 27, 28, 29, 30, 31, 32, 33, 34],
  -- 27 done
  #v[0, 0, 0, 0, 0, 0, 4, 0, 0, 0, 4, 6, 4, 0, 0, 0, 0, 0, 0, 0, 0, 0, 0, 0, 0, 0, 4, 4, 28, 0, 0,
     31, 32, 33, 34],
  -- 28 back
  #v[0, 0, 1, 2, 0, 4, 4, 4, 4, 5, 6, 6, 4, 30, 13, 14, 15, 16, 17, 18, 19, 1, 7, 7, 8, 12, 24, 24,
     12, 0, 29, 30, 30, 33, 34],
  -- 29 system
  #v[0, 1, 2, 3, 4, 5, 4, 4, 8, 9, 10, 11, 12, 13, 14, 15, 16, 17, 18, 19, 20, 21, 22, 23, 24, 25,
     26, 27, 28, 29, 30, 31, 32, 33, 34],
  -- 30 channel
  #v[0, 1, 2, 3, 4, 5, 6, 7, 8, 9, 10, 11, 12, 13, 14, 15, 16, 17, 18, 19, 20, 0, 22, 23, 24, 25,
     26, 27, 28, 29, 30, 31, 32, 33, 34],
  -- 31 ssch
  #v[0, 1, 2, 3, 4, 5, 6, 7, 8, 9, 10, 11, 12, 13, 14, 15, 16, 17, 18, 19, 20, 21, 22, 23, 24, 25,
     26, 27, 28, 29, 30, 31, 32, 33, 34],
  -- 32 wsch
  #v[0, 1, 2, 3, 4, 5, 6, 7, 8, 9, 10, 11, 12, 13, 14, 15, 16, 17, 18, 19, 20, 21, 22, 23, 24, 25,
     26, 27, 28, 29, 30, 31, 32, 33, 34],
  -- 33 slib
  #v[0, 1, 2, 3, 4, 5, 6, 7, 8, 9, 10, 11, 12, 13, 14, 15, 16, 17, 18, 19, 20, 21, 22, 23, 24, 25,
     26, 27, 28, 29, 30, 31, 32, 33, 34],
  -- 34 tlib
  #v[0, 1, 2, 3, 4, 5, 6, 7, 8, 9, 10, 11, 12, 13, 14, 15, 16, 17, 18, 19, 20, 21, 22, 23, 24, 25,
     26, 27, 28, 29, 30, 31, 32, 33, 34],
  -- 35 INT
  #v[1, 1, 3, 0, 8, 9, 6, 21, 24, 4, 10, 11, 12, 14, 15, 16, 17, 18, 19, 20, 0, 0, 4, 4, 24, 4, 4,
     4, 28, 30, 31, 31, 32, 33, 34],
  -- 36 STR
  #v[0, 0, 2, 3, 4, 5, 6, 7, 8, 9, 4, 4, 12, 13, 0, 0, 0, 0, 0, 0, 0, 21, 0, 0, 24, 25, 26, 27, 28,
     29, 30, 30, 30, 33, 34],
  -- 37 OTHER
  #v[0, 1, 2, 3, 4, 5, 6, 7, 8, 9, 10, 11, 12, 13, 14, 15, 16, 0, 0, 0, 0, 21, 0, 0, 24, 25, 26, 27,
     28, 29, 30, 31, 32, 33, 34],
  -- 38 slist
  #v[0, 1, 2, 3, 4, 5, 6, 7, 8, 9, 10, 11, 12, 13, 14, 15, 16, 17, 18, 19, 20, 21, 22, 23, 24, 25,
     26, 27, 28, 29, 30, 32, 32, 33, 34],
  -- 39 group
  #v[0, 1, 2, 3, 4, 5, 6, 7, 8, 9, 10, 11, 12, 13, 14, 15, 16, 17, 18, 19, 20, 21, 22, 23, 24, 25,
     26, 27, 28, 29, 31, 31, 32, 33, 34],
  -- 40 description
  #v[0, 1, 2, 3, 4, 5, 6, 7, 8, 9, 10, 11, 12, 13, 14, 15, 16, 17, 18, 19, 20, 21, 22, 23, 24, 25,
     26, 27, 28, 29, 32, 31, 32, 33, 34]]

/-- `cmd_action` -/
def cmdAction : Vector (Vector Act cmdStates) cmdTokens := #v[
  -- 0 temp
  #v[.c7, .c7, .c7, .c7, .c7, .c7, .c7, .c7, .c7, .c7, .c7, .c7, .c7, .c7, .c7, .c7, .c7, .c7, .c7,
     .c7, .c7, .c7, .c7, .c7, .c38, .c7, .c7, .c7, .c7, .c7, .c7, .c7, .c7, .c7, .c7],
  -- 1 *
  #v[.c7, .c7, .c7, .c7, .c7, .c32, .c31, .c7, .c7, .c31, .c7, .c7, .c7, .c7, .c7, .c7, .c7, .c7,
     .c7, .c7, .c7, .c7, .c7, .c7, .c7, .c7, .c7, .c7, .c7, .c7, .c7, .c7, .c7, .c7, .c7],
  -- 2 humid
  #v[.c7, .c7, .c7, .c7, .c7, .c7, .c7, .c7, .c7, .c7, .c7, .c7, .c7, .c7, .c7, .c7, .c7, .c7, .c7,
     .c7, .c7, .c7, .c7, .c7, .c37, .c7, .c7, .c7, .c7, .c7, .c7, .c7, .c7, .c7, .c7],
  -- 3 schedule
  #v[.c0, .c8, .c7, .c7, .c7, .c7, .c52, .c7, .c7, .c7, .c7, .c7, .c7, .c7, .c7, .c7, .c7, .c7, .c7,
     .c7, .c7, .c7, .c7, .c7, .c7, .c7, .c7, .c7, .c7, .c7, .c7, .c7, .c7, .c7, .c7],
  -- 4 ?
  #v[.c1, .c1, .c1, .c1, .c1, .c1, .c1, .c1, .c1, .c1, .c1, .c1, .c1, .c1, .c1, .c1, .c1, .c1, .c1,
     .c1, .c1, .c1, .c1, .c1, .c1, .c1, .c1, .c1, .c1, .c1, .c1, .c1, .c1, .c1, .c7],
  -- 5 display
  #v[.c7, .c7, .c7, .c7, .c7, .c7, .c7, .c7, .c7, .c7, .c7, .c7, .c7, .c7, .c7, .c7, .c7, .c7, .c7,
     .c7, .c7, .c7, .c7, .c7, .c7, .c7, .c7, .c7, .c7, .c7, .c74, .c7, .c7, .c7, .c7],
  -- 6 yes
  #v[.c7, .c34, .c7, .c7, .c34, .c7, .c7, .c34, .c7, .c7, .c7, .c7, .c7, .c7, .c7, .c7, .c7, .c7,
     .c7, .c7, .c48, .c7, .c7, .c7, .c7, .c7, .c7, .c7, .c7, .c7, .c7, .c7, .c7, .c7, .c7],
  -- 7 cancel
  #v[.c34, .c34, .c34, .c34, .c34, .c34, .c34, .c34, .c34, .c34, .c34, .c34, .c34, .c34, .c34, .c34,
     .c34, .c34, .c34, .c34, .c34, .c34, .c34, .c34, .c34, .c34, .c34, .c34, .c34, .c34, .c34, .c34,
     .c34, .c34, .c34],
  -- 8 replace
  #v[.c7, .c7, .c7, .c7, .c39, .c7, .c7, .c7, .c7, .c7, .c7, .c7, .c7, .c7, .c7, .c7, .c7, .c7, .c7,
     .c7, .c7, .c7, .c7, .c7, .c7, .c7, .c7, .c7, .c7, .c7, .c7, .c7, .c7, .c7, .c7],
  -- 9 sedit
  #v[.c0, .c7, .c7, .c7, .c7, .c7, .c7, .c7, .c7, .c7, .c7, .c7, .c7, .c7, .c7, .c7, .c7, .c7, .c7,
     .c7, .c7, .c7, .c7, .c7, .c7, .c7, .c7, .c7, .c7, .c7, .c0, .c7, .c7, .c7, .c7],
  -- 10 delete
  #v[.c7, .c7, .c7, .c7, .c50, .c7, .c7, .c7, .c7, .c7, .c7, .c7, .c24, .c7, .c7, .c7, .c7, .c7,
     .c7, .c7, .c7, .c7, .c7, .c7, .c24, .c7, .c7, .c7, .c7, .c7, .c7, .c7, .c7, .c7, .c7],
  -- 11 active
  #v[.c7, .c7, .c7, .c7, .c7, .c7, .c7, .c7, .c7, .c7, .c7, .c7, .c7, .c7, .c7, .c7, .c7, .c7, .c7,
     .c7, .c7, .c7, .c7, .c7, .c7, .c7, .c7, .c7, .c7, .c7, .c7, .c7, .c7, .c7, .c7],
  -- 12 on
  #v[.c7, .c9, .c7, .c7, .c7, .c7, .c7, .c7, .c7, .c7, .c7, .c7, .c7, .c71, .c7, .c7, .c7, .c7, .c7,
     .c7, .c7, .c7, .c7, .c7, .c22, .c7, .c7, .c7, .c7, .c7, .c7, .c7, .c7, .c7, .c7],
  -- 13 off
  #v[.c7, .c10, .c7, .c7, .c7, .c7, .c7, .c7, .c7, .c7, .c7, .c7, .c23, .c72, .c7, .c7, .c7, .c7,
     .c7, .c7, .c7, .c7, .c7, .c7, .c23, .c7, .c7, .c7, .c7, .c7, .c7, .c7, .c7, .c7, .c7],
  -- 14 clear
  #v[.c7, .c7, .c7, .c7, .c33, .c7, .c7, .c7, .c7, .c7, .c7, .c7, .c7, .c7, .c7, .c7, .c7, .c7, .c7,
     .c7, .c7, .c18, .c7, .c7, .c7, .c7, .c7, .c7, .c7, .c7, .c7, .c7, .c7, .c7, .c7],
  -- 15 status
  #v[.c6, .c6, .c6, .c6, .c6, .c6, .c6, .c6, .c6, .c6, .c6, .c6, .c6, .c6, .c6, .c6, .c6, .c6, .c6,
     .c6, .c6, .c6, .c6, .c6, .c6, .c6, .c6, .c6, .c7, .c7, .c7, .c7, .c7, .c7, .c7],
  -- 16 time
  #v[.c2, .c11, .c2, .c2, .c2, .c2, .c2, .c2, .c2, .c2, .c2, .c2, .c2, .c2, .c2, .c2, .c2, .c2, .c2,
     .c2, .c2, .c2, .c2, .c2, .c2, .c2, .c2, .c2, .c7, .c7, .c7, .c7, .c7, .c7, .c7],
  -- 17 sensor
  #v[.c12, .c7, .c7, .c7, .c7, .c7, .c7, .c7, .c7, .c7, .c7, .c7, .c7, .c7, .c7, .c7, .c7, .c7, .c7,
     .c7, .c7, .c7, .c7, .c7, .c7, .c7, .c7, .c7, .c7, .c7, .c7, .c7, .c7, .c7, .c7],
  -- 18 cycle
  #v[.c7, .c13, .c7, .c7, .c7, .c7, .c7, .c7, .c7, .c7, .c7, .c7, .c7, .c7, .c7, .c7, .c7, .c7, .c7,
     .c7, .c7, .c7, .c7, .c7, .c7, .c7, .c7, .c7, .c7, .c7, .c7, .c7, .c7, .c7, .c7],
  -- 19 ipc
  #v[.c7, .c7, .c7, .c7, .c7, .c7, .c25, .c19, .c7, .c7, .c7, .c7, .c7, .c7, .c7, .c7, .c7, .c7,
     .c7, .c7, .c7, .c7, .c7, .c7, .c7, .c7, .c7, .c7, .c7, .c7, .c7, .c7, .c7, .c7, .c7],
  -- 20 show
  #v[.c7, .c76, .c7, .c7, .c7, .c7, .c7, .c7, .c7, .c7, .c7, .c7, .c7, .c7, .c7, .c7, .c7, .c7, .c7,
     .c7, .c7, .c7, .c7, .c7, .c7, .c7, .c7, .c7, .c7, .c7, .c0, .c7, .c7, .c7, .c7],
  -- 21 save
  #v[.c7, .c7, .c7, .c7, .c50, .c7, .c7, .c7, .c7, .c7, .c7, .c7, .c7, .c7, .c7, .c7, .c7, .c7, .c7,
     .c7, .c7, .c7, .c7, .c7, .c7, .c7, .c7, .c7, .c7, .c7, .c73, .c7, .c7, .c7, .c7],
  -- 22 template
  #v[.c7, .c7, .c7, .c7, .c7, .c7, .c53, .c63, .c7, .c7, .c7, .c7, .c63, .c7, .c7, .c7, .c7, .c7,
     .c7, .c7, .c7, .c7, .c7, .c7, .c7, .c7, .c7, .c7, .c7, .c7, .c7, .c7, .c7, .c7, .c7],
  -- 23 hide
  #v[.c7, .c75, .c7, .c7, .c7, .c7, .c7, .c7, .c7, .c7, .c7, .c7, .c7, .c7, .c7, .c7, .c7, .c7, .c7,
     .c7, .c7, .c7, .c7, .c7, .c7, .c7, .c7, .c7, .c7, .c7, .c0, .c7, .c7, .c7, .c7],
  -- 24 load
  #v[.c7, .c7, .c7, .c7, .c50, .c7, .c7, .c7, .c7, .c7, .c7, .c7, .c7, .c7, .c7, .c7, .c7, .c7, .c7,
     .c7, .c7, .c7, .c7, .c7, .c7, .c7, .c7, .c7, .c7, .c7, .c7, .c7, .c7, .c7, .c7],
  -- 25 set
  #v[.c7, .c7, .c7, .c1, .c59, .c7, .c7, .c7, .c7, .c7, .c7, .c7, .c7, .c7, .c7, .c7, .c7, .c7, .c7,
     .c7, .c7, .c7, .c7, .c7, .c7, .c7, .c7, .c7, .c7, .c7, .c7, .c7, .c7, .c7, .c7],
  -- 26 q
  #v[.c3, .c3, .c3, .c3, .c3, .c3, .c3, .c3, .c3, .c3, .c3, .c3, .c3, .c3, .c3, .c3, .c3, .c3, .c3,
     .c3, .c3, .c3, .c3, .c3, .c3, .c3, .c3, .c3, .c3, .c3, .c3, .c3, .c3, .c3, .c3],
  -- 27 done
  #v[.c34, .c34, .c34, .c34, .c34, .c34, .c34, .c34, .c34, .c34, .c34, .c34, .c34, .c34, .c34, .c34,
     .c34, .c34, .c34, .c34, .c34, .c34, .c34, .c34, .c34, .c34, .c34, .c34, .c34, .c34, .c34, .c34,
     .c34, .c34, .c34],
  -- 28 back
  #v[.c34, .c34, .c34, .c34, .c34, .c34, .c34, .c34, .c34, .c34, .c34, .c34, .c34, .c34, .c34, .c34,
     .c34, .c34, .c34, .c34, .c34, .c34, .c34, .c34, .c34, .c34, .c34, .c34, .c34, .c34, .c34, .c34,
     .c34, .c34, .c34],
  -- 29 system
  #v[.c66, .c66, .c66, .c66, .c66, .c66, .c66, .c66, .c66, .c66, .c66, .c66, .c66, .c66, .c66, .c66,
     .c66, .c66, .c66, .c66, .c66, .c66, .c66, .c66, .c66, .c66, .c66, .c66, .c66, .c7, .c7, .c7,
     .c7, .c7, .c7],
  -- 30 channel
  #v[.c7, .c7, .c7, .c7, .c7, .c7, .c7, .c7, .c7, .c7, .c7, .c7, .c7, .c7, .c7, .c7, .c7, .c7, .c7,
     .c7, .c7, .c7, .c7, .c7, .c7, .c7, .c7, .c7, .c7, .c7, .c21, .c7, .c7, .c7, .c7],
  -- 31 ssch
  #v[.c57, .c57, .c57, .c57, .c57, .c57, .c57, .c57, .c57, .c57, .c57, .c57, .c57, .c57, .c57, .c57,
     .c57, .c57, .c57, .c57, .c57, .c57, .c57, .c57, .c57, .c57, .c57, .c57, .c57, .c7, .c7, .c7,
     .c7, .c7, .c7],
  -- 32 wsch
  #v[.c58, .c58, .c58, .c58, .c58, .c58, .c58, .c58, .c58, .c58, .c58, .c58, .c58, .c58, .c58, .c58,
     .c58, .c58, .c58, .c58, .c58, .c58, .c58, .c58, .c58, .c58, .c58, .c58, .c58, .c7, .c7, .c7,
     .c7, .c7, .c7],
  -- 33 slib
  #v[.c56, .c56, .c56, .c56, .c56, .c56, .c56, .c56, .c56, .c56, .c56, .c56, .c56, .c56, .c56, .c56,
     .c56, .c56, .c56, .c56, .c56, .c56, .c56, .c56, .c56, .c56, .c56, .c56, .c56, .c7, .c7, .c7,
     .c7, .c7, .c7],
  -- 34 tlib
  #v[.c55, .c55, .c55, .c55, .c55, .c55, .c55, .c55, .c55, .c55, .c55, .c55, .c55, .c55, .c55, .c55,
     .c55, .c55, .c55, .c55, .c55, .c55, .c55, .c55, .c55, .c55, .c55, .c55, .c55, .c7, .c7, .c7,
     .c7, .c7, .c7],
  -- 35 INT
  #v[.c4, .c7, .c16, .c17, .c20, .c30, .c20, .c7, .c21, .c29, .c7, .c21, .c7, .c41, .c42, .c43,
     .c44, .c45, .c46, .c47, .c7, .c49, .c61, .c7, .c7, .c14, .c27, .c28, .c7, .c68, .c7, .c7, .c7,
     .c7, .c7],
  -- 36 STR
  #v[.c7, .c5, .c7, .c7, .c7, .c7, .c7, .c7, .c7, .c7, .c51, .c7, .c7, .c7, .c7, .c7, .c7, .c7, .c7,
     .c7, .c7, .c7, .c7, .c7, .c7, .c7, .c7, .c7, .c7, .c7, .c7, .c69, .c70, .c7, .c7],
  -- 37 OTHER
  #v[.c8, .c7, .c7, .c7, .c7, .c7, .c7, .c8, .c7, .c7, .c7, .c7, .c7, .c7, .c7, .c7, .c7, .c7, .c7,
     .c7, .c7, .c7, .c7, .c7, .c7, .c7, .c7, .c7, .c7, .c7, .c7, .c7, .c7, .c7, .c7],
  -- 38 slist
  #v[.c40, .c65, .c65, .c65, .c65, .c65, .c65, .c65, .c65, .c65, .c65, .c65, .c65, .c65, .c65, .c65,
     .c65, .c65, .c65, .c65, .c65, .c65, .c65, .c65, .c65, .c65, .c65, .c65, .c65, .c65, .c65, .c65,
     .c65, .c65, .c65],
  -- 39 group
  #v[.c7, .c7, .c7, .c7, .c7, .c7, .c7, .c7, .c7, .c7, .c7, .c7, .c7, .c7, .c7, .c7, .c7, .c7, .c7,
     .c7, .c7, .c7, .c7, .c7, .c7, .c7, .c7, .c7, .c7, .c7, .c0, .c7, .c7, .c7, .c7],
  -- 40 description
  #v[.c7, .c7, .c7, .c7, .c7, .c7, .c7, .c7, .c7, .c7, .c7, .c7, .c7, .c7, .c7, .c7, .c7, .c7, .c7,
     .c7, .c7, .c7, .c7, .c7, .c7, .c7, .c7, .c7, .c7, .c7, .c0, .c7, .c7, .c7, .c7]]

/-! ## Checking all entries -/

theorem mem_zipIdx_zip {α β : Type} {n : ℕ} (v : Vector α n) (w : Vector β n) (i : Fin n) :
    ((v.get i, w.get i), i.val) ∈ (v.toList.zip w.toList).zipIdx := by
  rw [List.mk_mem_zipIdx_iff_getElem?, List.getElem?_zip_eq_some]
  constructor <;> simp

/-- What a pass over the rows of the two tables finds of every row, column, new state and routine
holds of every entry. -/
theorem forall_entries {P : ℕ → ℕ → ℕ → Act → Prop} [∀ i s new act, Decidable (P i s new act)]
    (h : ((cmdNewState.toList.zip cmdAction.toList).zipIdx.all fun row =>
      (row.1.1.toList.zip row.1.2.toList).zipIdx.all fun x => P row.2 x.2 x.1.1 x.1.2) = true)
    (i : Fin cmdTokens) (s : Fin cmdStates) :
    P i s ((cmdNewState.get i).get s) ((cmdAction.get i).get s) := by
  have hrow := List.all_eq_true.1 h _ (mem_zipIdx_zip cmdNewState cmdAction i)
  have hentry := List.all_eq_true.1 hrow _ (mem_zipIdx_zip (cmdNewState.get i) (cmdAction.get i) s)
  exact of_decide_eq_true hentry

end PconTng
