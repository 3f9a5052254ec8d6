/-!
# Sample files

Small files that come with the library: notations with the sentence that each
of them has to give, and configurations.
-/

namespace MotionNotation.Samples

def basicText : String :=
  "[\n" ++
  "  \x7b \"notation\": \"d2>50\", \"description\": \"Move right 50 units, ease in/out " ++
  "quad over 2 seconds.\" \x7d,\n" ++
  "  \x7b \"notation\": \"<10|>10\", \"description\": \"Move left 10 units, ease in/out " ++
  "quad over 0.87 seconds. Once complete then move right 10 units, ease in/out quad over " ++
  "0.87 seconds.\" \x7d,\n" ++
  "  \x7b \"notation\": \"!f0\", \"description\": \"Fade from 100% to 0%, ease in/out quad " ++
  "over 0.87 seconds.\" \x7d,\n" ++
  "  \x7b \"notation\": \"e0s0.5d1\", \"description\": \"Scale to 50%, ease linear over 1 " ++
  "seconds.\" \x7d,\n" ++
  "  \x7b \"notation\": \"d0x5\", \"description\": \"Move to 5 x pos, ease in/out quad " ++
  "instantly.\" \x7d,\n" ++
  "  \x7b \"notation\": \">20L3\", \"description\": \"Move right 20 units, absolute " ++
  "repeating 3 times, ease in/out quad over 0.87 seconds.\" \x7d,\n" ++
  "  \x7b \"notation\": \"^10l\", \"description\": \"Move up 10 units, relative repeating " ++
  "forever, ease in/out quad over 0.87 seconds.\" \x7d,\n" ++
  "  \x7b \"notation\": \"d1.5\", \"description\": \"Wait for 1.5 seconds.\" \x7d,\n" ++
  "  \x7b \"notation\": \"r45\", \"description\": \"Rotate around z by 45, ease in/out " ++
  "quad over 0.87 seconds.\" \x7d,\n" ++
  "  \x7b \"notation\": \"!<30\", \"description\": \"Move in from right 30 units, ease " ++
  "in/out quad over 0.87 seconds.\" \x7d,\n" ++
  "  \x7b \"notation\": \"s|x\", \"description\": \"Scale to 100%, ease in/out quad over " ++
  "0.87 seconds. Once complete then move to 0 x pos, ease in/out quad over 0.87 seconds.\" " ++
  "\x7d,\n" ++
  "  \x7b \"notation\": \"e7y-3.5\", \"description\": \"Move to -3.5 y pos, ease in quart " ++
  "over 0.87 seconds.\" \x7d,\n" ++
  "  \x7b \"notation\": \"\", \"description\": \"do nothing\" \x7d,\n" ++
  "  \x7b \"notation\": \"qqq\", \"description\": \"do nothing\" \x7d,\n" ++
  "  \x7b \"notation\": \"[]\", \"description\": \"do nothing\" \x7d,\n" ++
  "  \x7b \"notation\": \"[qq]\", \"description\": \"do nothing\" \x7d,\n" ++
  "  \x7b \"notation\": \"[>10][qq]\", \"description\": \"Perform a series of animations " ++
  "at the same time.\\nAnimation #1 will move right 10 units, ease in/out quad over 0.87 " ++
  "seconds.\" \x7d\n" ++
  "]\n"

def measuredText : String :=
  "[\n" ++
  "  \x7b\n" ++
  "    \"notation\": \"<,>\",\n" ++
  "    \"target\": \x7b \"width\": 40.0, \"height\": 10.0 \x7d,\n" ++
  "    \"description\": \"Move left 40 units, ease in/out quad over 0.87 seconds. Once " ++
  "complete then wait for 0.2262 seconds. Once complete then move right 40 units, ease " ++
  "in/out quad over 0.87 seconds.\"\n" ++
  "  \x7d,\n" ++
  "  \x7b\n" ++
  "    \"notation\": \"D2\",\n" ++
  "    \"target\": \x7b \"sibling_index\": 3 \x7d,\n" ++
  "    \"description\": \"Wait for 6 seconds.\"\n" ++
  "  \x7d,\n" ++
  "  \x7b\n" ++
  "    \"notation\": \"v\",\n" ++
  "    \"target\": \x7b \"width\": 80.0, \"height\": 25.0 \x7d,\n" ++
  "    \"description\": \"Move down 25 units, ease in/out quad over 0.87 seconds.\"\n" ++
  "  \x7d,\n" ++
  "  \x7b\n" ++
  "    \"notation\": \"[>100][f0]\",\n" ++
  "    \"description\": \"Perform a series of animations at the same time.\\nAnimation #1 " ++
  "will move right 100 units, ease in/out quad over 0.87 seconds.\\nAnimation #2 will fade " ++
  "to 0%, ease in/out quad over 0.87 seconds.\"\n" ++
  "  \x7d\n" ++
  "]\n"

def slowText : String :=
  "\x7b \"time_scale\": 2.0 \x7d\n"

def tightText : String :=
  "\x7b \"max_pipes\": 2, \"max_actions\": 4 \x7d\n"

end MotionNotation.Samples
