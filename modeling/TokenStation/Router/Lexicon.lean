import TokenStation.Library.Saturating
import Mathlib.Data.List.Infix

/-!
# The heuristic's fixed vocabulary

The phrase lists are constants of the program. A phrase is looked for in text that has already been
lowercased: a pure-ASCII single word must match on word boundaries, anything else is a substring
match. Only counts of hits leave this module.

Lowercasing and the alphanumeric class are Unicode tables of the standard library; a model of the
router takes them as the argument `Unicode`, so that every result holds for whatever version of the
tables the program is built with.
-/

namespace TokenStation

open Library

/-- The Unicode tables that routing reads. -/
structure Unicode where
  /-- `str::to_lowercase`. -/
  toLowercase : String → String
  /-- `char::is_alphanumeric`. -/
  isAlphanumeric : Char → Bool

/-- The tables on ASCII text, where they agree with every version of Unicode. -/
def Unicode.ascii : Unicode where
  toLowercase text := String.ofList (text.toList.map Char.toLower)
  isAlphanumeric := Char.isAlphanum

/-- `text.contains(phrase)`. -/
def containsText (text phrase : String) : Bool := decide (phrase.toList <:+: text.toList)

/-- `text.matches(pattern).count()`: occurrences that do not overlap, found from the left. The
first argument counts the characters of the current occurrence still to be skipped. -/
def countOccurrences (pattern : List Char) : ℕ → List Char → ℕ
  | _, [] => 0
  | skip + 1, _ :: rest => countOccurrences pattern skip rest
  | 0, c :: rest =>
    if pattern.isPrefixOf (c :: rest) then
      countOccurrences pattern (pattern.length - 1) rest + 1
    else countOccurrences pattern 0 rest

/-- `u32::try_from(count).unwrap_or(u32::MAX)`. -/
def truncate (count : ℕ) : ℕ := clampTo u32Max count

/-! ## The phrase lists -/

namespace Lexicon

/-- Phrases that ask for deliberate reasoning. -/
def reasoningMarkers : List String := [
  "step by step", "think through", "analyze", "reason about", "explain why",
  "compare and contrast", "evaluate", "what are the tradeoffs", "pros and cons", "critically",
  "systematically", "break down", "deep dive", "一步一步", "逐步", "推理", "分析", "论证",
  "解释为什么", "比较", "权衡", "利弊", "优缺点", "系统地", "深入", "拆解", "评估"]

/-- Tokens that suggest the request is about code even without a fence. -/
def codeKeywords : List String := [
  "function", "class", "struct", "impl", "async", "await", "def", "import", "return", "const",
  "enum", "trait", "interface", "select", "insert", "create table", "docker", "kubectl",
  "git rebase", "curl", "grep", "sudo", "代码", "函数", "报错", "编译"]

/-- Domain vocabulary that correlates with hard requests. -/
def technicalTerms : List String := [
  "architecture", "distributed", "encryption", "algorithm", "optimization", "concurrency",
  "parallelism", "microservice", "kubernetes", "database schema", "machine learning",
  "neural network", "transformer", "gradient", "backpropagation", "consensus", "replication",
  "sharding", "zero-knowledge", "homomorphic", "byzantine", "mutex", "semaphore", "deadlock",
  "race condition", "memory leak", "garbage collection", "compiler", "parser", "lexer",
  "type system", "monomorphization", "polymorphism", "dependency injection", "架构", "分布式",
  "加密", "算法", "优化", "并发", "并行", "微服务", "数据库", "机器学习", "神经网络", "共识",
  "分片", "死锁", "竞态", "内存泄漏", "垃圾回收", "编译器", "类型系统", "多态", "依赖注入"]

/-- Phrases that argue the request is easy; the only list that subtracts. -/
def simpleIndicators : List String := [
  "what is", "define", "hello", "thanks", "thank you", "who is", "when was", "where is",
  "how old", "what color", "good morning", "good night", "goodbye", "how are you", "what time",
  "what day", "translate", "是什么", "什么是", "你好", "谢谢", "多谢", "是谁", "什么时候",
  "在哪里", "多大", "什么颜色", "早上好", "晚安", "再见", "你好吗", "几点", "星期几", "翻译"]

/-- Math and formal-logic vocabulary. -/
def mathTerms : List String := [
  "prove", "calculate", "derive", "equation", "integral", "derivative", "probability",
  "theorem", "conjecture", "polynomial", "matrix", "eigenvalue", "linear algebra",
  "differential", "证明", "计算", "推导", "方程", "积分", "导数", "概率", "定理", "猜想",
  "多项式", "矩阵", "特征值", "线性代数", "微分"]

/-- Creative-writing vocabulary. -/
def creativeTerms : List String := [
  "write a story", "write a poem", "essay", "creative", "fiction", "narrative", "screenplay",
  "dialogue", "character development", "写一个故事", "写个故事", "写一首诗", "写首诗", "作文",
  "散文", "小说", "剧本", "人物塑造", "创作"]

/-- Structured-output vocabulary, scanned over system text only. -/
def formatTerms : List String := [
  "json", "yaml", "xml", "structured", "schema", "format", "结构化", "格式"]

/-! ## Matching -/

/-- `has_phrase(text, phrase)`, for lowercased `text`. -/
def hasPhrase (unicode : Unicode) (text phrase : String) : Bool :=
  if phrase.toList.contains ' ' || !(phrase.toList.all fun c ↦ decide (c.val < 128)) then
    containsText text phrase
  else
    (text.toList.splitOnP fun c ↦ !unicode.isAlphanumeric c).any fun word ↦
      word == phrase.toList

/-- `count_matches(text, phrases)`: one point per list entry at most. -/
def countMatches (unicode : Unicode) (text : String) (phrases : List String) : ℕ :=
  truncate (phrases.countP (hasPhrase unicode text))

end Lexicon

end TokenStation
